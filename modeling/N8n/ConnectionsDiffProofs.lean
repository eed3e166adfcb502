import N8n.ConnectionTableProofs
import N8n.DirectedGraphProofs
import N8n.JsonTextProofs

/-! # The connection diff — what is added and removed, place by place

    Two connection tables are walked along the names of either, and at every
    place the connections are told apart by their JSON text.  Each step of
    the walk adds what it reports to the diff; steps in sequence report what
    each of them reports (`Reports`).

    Names are looked up in plain objects.  A name that every object inherits
    is found where it was never stored: a report under it ends up in an
    inherited object and not in the diff.  The diff is exact where no such
    name has a difference to report and equal connections are written
    alike (`exactDiff_iff`). -/

namespace N8nConnectionsDiff

open N8nOrderedMap N8nConnectionTable N8nJsonText List OrderedMap
open N8nDirectedGraph (propertyOrder mem_propertyOrder objectPrototype)

/-! ## Steps that report -/

section

variable {σ ρ ε α : Type} (inv : σ → Prop) (has : σ → ρ → Prop)

/-- A step that succeeds exactly if `C`, and then reports what is `E`. -/
structure Reports (f : σ → Except ε σ) (C : Prop) (E : ρ → Prop) :
    Prop where
  succeeds : ∀ s, inv s → C → ∃ t, f s = .ok t
  spec : ∀ s t, inv s → f s = .ok t → C ∧ inv t ∧ ∀ e, has t e ↔ has s e ∨ E e

variable {inv has}

theorem Reports.congr {f : σ → Except ε σ} {C D : Prop} {E F : ρ → Prop}
    (h : Reports inv has f C E) (hC : C ↔ D) (hE : D → ∀ e, E e ↔ F e) :
    Reports inv has f D F := by
  refine ⟨fun s hs hD => h.succeeds s hs (hC.mpr hD), fun s t hs hf => ?_⟩
  obtain ⟨hc, ht, hhas⟩ := h.spec s t hs hf
  have hD := hC.mp hc
  exact ⟨hD, ht, fun e => (hhas e).trans (or_congr_right (hE hD e))⟩

theorem reports_ok : Reports inv has (ε := ε) (fun s => .ok s) True fun _ => False := by
  refine ⟨fun s _ _ => ⟨s, rfl⟩, fun s t hs hf => ?_⟩
  cases hf
  exact ⟨trivial, hs, fun e => (or_iff_left id).symm⟩

theorem reports_error (error : ε) (E : ρ → Prop) :
    Reports inv has (fun _ => .error error) False E :=
  ⟨fun _ _ h => h.elim, fun _ _ _ hf => by cases hf⟩

theorem Reports.bind {f g : σ → Except ε σ} {C D : Prop} {E F : ρ → Prop}
    (hf : Reports inv has f C E) (hg : Reports inv has g D F) :
    Reports inv has (fun s => f s >>= g) (C ∧ D) fun e => E e ∨ F e := by
  constructor
  · rintro s hs ⟨hC, hD⟩
    obtain ⟨t, ht⟩ := hf.succeeds s hs hC
    obtain ⟨-, hinv, -⟩ := hf.spec s t hs ht
    obtain ⟨u, hu⟩ := hg.succeeds t hinv hD
    exact ⟨u, by rw [ht]; exact hu⟩
  · intro s u hs hu
    rcases ht : f s with error | t
    · rw [ht] at hu
      cases hu
    · rw [ht] at hu
      obtain ⟨hC, hinv, hhas⟩ := hf.spec s t hs ht
      obtain ⟨hD, hinv', hhas'⟩ := hg.spec t u hinv hu
      exact ⟨⟨hC, hD⟩, hinv', fun e => by rw [hhas', hhas, or_assoc]⟩

/-- **A LOOP** reports what its steps report. -/
theorem reports_foldlM {f : σ → α → Except ε σ} {l : List α} {C : α → Prop} {E : α → ρ → Prop}
    (h : ∀ a ∈ l, Reports inv has (fun s => f s a) (C a) (E a)) :
    Reports inv has (fun s => l.foldlM f s) (∀ a ∈ l, C a) fun e => ∃ a ∈ l, E a e := by
  induction l with
  | nil =>
    refine reports_ok.congr ?_ fun _ e => ?_
    · exact iff_of_true trivial fun a ha => by cases ha
    · exact iff_of_false id fun ⟨a, ha, _⟩ => by cases ha
  | cons a rest ih =>
    obtain ⟨ha, hrest⟩ := forall_mem_cons.mp h
    refine (ha.bind (ih hrest)).congr ?_ fun _ e => ?_
    · exact forall_mem_cons.symm
    · exact (exists_mem_cons_iff (fun b => E b e) a rest).symm

end

/-! ## Connections and their tables -/

/-- The other end of a connection; its index is a number of any kind. -/
structure IConnection (N : Type) where
  node : String
  type : String
  index : N
deriving DecidableEq

inductive Field where
  | node | type | index
deriving DecidableEq

/-- A connection object: its value, and the order its keys were written
    in. -/
structure ConnectionObject (N : Type) where
  value : IConnection N
  order : List Field
  perm : order.Perm [.node, .type, .index]

variable {N : Type}

abbrev INodeConnections (N : Type) := InnerTable String (ConnectionObject N)

abbrev IConnections (N : Type) := Table String String (ConnectionObject N)

def fieldName : Field → JsString
  | .node => ofString "node"
  | .type => ofString "type"
  | .index => ofString "index"

def IConnection.get (c : IConnection N) : Field → Json N
  | .node => .string (ofString c.node)
  | .type => .string (ofString c.type)
  | .index => .number c.index

def ConnectionObject.json (c : ConnectionObject N) : Json N :=
  .object (c.order.map fun field => (fieldName field, c.value.get field))

/-! ## The comparison -/

inductive DiffError where
  /-- something inherited is called, or read as a list of connections -/
  | typeError
  /-- a report goes to an inherited object; what the walk does from there on
      is not followed -/
  | inheritedWrite

/-- `index` is the position in the list of the slot. -/
structure ConnectionEntry (N : Type) where
  sourceIndex : Nat
  index : Nat
  connection : ConnectionObject N

abbrev INodeConnectionsDiff (N : Type) := OrderedMap String (List (ConnectionEntry N))

/-- The reports of one kind, by node and input. -/
abbrev Reported (N : Type) := OrderedMap String (INodeConnectionsDiff N)

structure ConnectionsDiff (N : Type) where
  added : Reported N
  removed : Reported N

/-- What `table[nodeName] ?? {}` gives. -/
inductive NodeObject (N : Type) where
  | own (byInput : INodeConnections N)
  | inherited (nodeName : String)

def nodeObject (table : IConnections N) (nodeName : String) : NodeObject N :=
  match table.get? nodeName with
  | some byInput => .own byInput
  | none =>
    if nodeName ∈ objectPrototype then .inherited nodeName
    else .own .empty

/-- `Object.keys` of it; what is inherited is not enumerable. -/
def NodeObject.keys : NodeObject N → List String
  | .own byInput => propertyOrder byInput.keys
  | .inherited _ => []

/-- What `nodeConnections[inputName] ?? []` gives to the walk over the
    positions: slots, or `none` for a value whose `length` is no number.  A
    function that is found has a `length` and no elements, which is the same
    to the walk as no slots. -/
def NodeObject.input (object : NodeObject N) (inputName : String) :
    Except DiffError (Option (Slots (ConnectionObject N))) :=
  match object with
  | .own byInput =>
    match byInput.get? inputName with
    | some slots => .ok (some slots)
    | none => if inputName = "__proto__" then .ok none else .ok (some [])
  | .inherited nodeName =>
    if nodeName = "__proto__" then .ok (some [])
    -- A function: its name is a string, which has no `map` in it.
    else if inputName = "name" then .error .typeError
    else if inputName = "arguments" ∨ inputName = "caller" then
      .error .typeError
    else if inputName = "length" then .ok none
    else if nodeName = "constructor" ∧ inputName = "prototype" then .ok none
    else .ok (some [])

section

variable (num : NumberText N)

/-- `JSON.stringify(conn)` -/
def connectionKey (c : ConnectionObject N) : JsString := text num c.json

/-- `new Map(connections.map((conn, idx) => [JSON.stringify(conn), …]))` -/
def connectionMap (connections : List (ConnectionObject N)) :
    OrderedMap JsString (Nat × ConnectionObject N) :=
  connections.zipIdx.foldl (fun m (connection, idx) =>
    m.set (connectionKey num connection) (idx, connection)) .empty

/-- The creation of what is missing on the way, and the push. -/
def report (reported : Reported N) (nodeName inputName : String)
    (entry : ConnectionEntry N) : Except DiffError (Reported N) :=
  match reported.get? nodeName with
  | none =>
    if nodeName ∈ objectPrototype then .error .inheritedWrite
    else if inputName ∈ objectPrototype then .error .typeError
    else .ok (reported.set nodeName (.set .empty inputName [entry]))
  | some byInput =>
    match byInput.get? inputName with
    | none =>
      if inputName ∈ objectPrototype then .error .typeError
      else .ok (reported.set nodeName (byInput.set inputName [entry]))
    | some entries =>
      .ok (reported.set nodeName (byInput.set inputName (entries ++ [entry])))

def reportAdded (nodeName inputName : String) (diff : ConnectionsDiff N)
    (entry : ConnectionEntry N) : Except DiffError (ConnectionsDiff N) :=
  (fun added => { diff with added }) <$> report diff.added nodeName inputName entry

def reportRemoved (nodeName inputName : String) (diff : ConnectionsDiff N)
    (entry : ConnectionEntry N) : Except DiffError (ConnectionsDiff N) :=
  (fun removed => { diff with removed }) <$> report diff.removed nodeName inputName entry

/-- The entries of one map whose keys the other does not have. -/
def missing (sourceIndex : Nat) (own other : OrderedMap JsString (Nat × ConnectionObject N)) :
    List (ConnectionEntry N) :=
  (own.entries.filter fun p => !other.has p.1).map fun p =>
    { sourceIndex, index := p.2.1, connection := p.2.2 }

/-- One position of one input. -/
def compareSlot (nodeName inputName : String) (prev next : Slots (ConnectionObject N))
    (diff : ConnectionsDiff N) (sourceIndex : Nat) : Except DiffError (ConnectionsDiff N) := do
  let prevMap := connectionMap num ((prev[sourceIndex]?.join).getD [])
  let nextMap := connectionMap num ((next[sourceIndex]?.join).getD [])
  let diff ← (missing sourceIndex nextMap prevMap).foldlM (reportAdded nodeName inputName) diff
  (missing sourceIndex prevMap nextMap).foldlM (reportRemoved nodeName inputName) diff

def compareInput (nodeName : String) (prev next : NodeObject N)
    (diff : ConnectionsDiff N) (inputName : String) :
    Except DiffError (ConnectionsDiff N) := do
  let prevInput ← prev.input inputName
  let nextInput ← next.input inputName
  match prevInput, nextInput with
  | some prevSlots, some nextSlots =>
    (List.range (max prevSlots.length nextSlots.length)).foldlM
      (compareSlot num nodeName inputName prevSlots nextSlots) diff
  | _, _ => .ok diff

def compareConnections (prev next : IConnections N) : Except DiffError (ConnectionsDiff N) :=
  (propertyOrder prev.keys ++ propertyOrder next.keys).eraseDups.foldlM
    (fun diff nodeName =>
      let prevNode := nodeObject prev nodeName
      let nextNode := nodeObject next nodeName
      (prevNode.keys ++ nextNode.keys).eraseDups.foldlM
        (compareInput num nodeName prevNode nextNode) diff)
    { added := .empty, removed := .empty }

end

/-! ## Keys of connections -/

section

variable {num : NumberText N}

theorem isPlain_json (c : ConnectionObject N) : IsPlain c.json := by
  refine .object fun m hm => ?_
  obtain ⟨field, -, rfl⟩ := mem_map.mp hm
  cases field
  · exact .string _
  · exact .string _
  · exact .number _

theorem fieldName_injective : Function.Injective fieldName := by
  intro f g h
  cases f <;> cases g <;> first | rfl | exact absurd h (by decide)

theorem IConnection.get_injective {c d : IConnection N}
    (h : ∀ field, c.get field = d.get field) : c = d := by
  rw [IConnection.mk.injEq]
  exact ⟨ofString_injective (Json.string.inj (h .node)),
    ofString_injective (Json.string.inj (h .type)), Json.number.inj (h .index)⟩

variable {c : ConnectionObject N}

theorem connectionKey_injective {d : ConnectionObject N}
    (h : connectionKey num c = connectionKey num d) : c = d := by
  have hjson : c.json = d.json := by
    refine stringify_injective num (isPlain_json c) (isPlain_json d) ?_
    exact congrArg some h
  obtain ⟨value, order, perm⟩ := c
  obtain ⟨value', order', perm'⟩ := d
  have hmembers := Json.object.inj hjson
  have horder : order = order' := by
    have hnames := congrArg (List.map Prod.fst) hmembers
    rw [map_map, map_map] at hnames
    exact map_injective_iff.mpr fieldName_injective hnames
  subst horder
  have hvalue : value = value' := by
    refine IConnection.get_injective fun field => ?_
    have hmem : field ∈ order := by
      rw [perm.mem_iff]
      cases field <;> decide
    exact (Prod.mk.inj (map_inj_left.mp hmembers field hmem)).2
  subst hvalue
  rfl

theorem foldl_connectionKey (l : List (ConnectionObject N × Nat))
    (m : OrderedMap JsString (Nat × ConnectionObject N)) :
    (∀ p ∈ (l.foldl (fun m c => m.set (connectionKey num c.1) (c.2, c.1)) m).entries, p ∈ m.entries
        ∨ ∃ c ∈ l, p = (connectionKey num c.1, c.2, c.1))
      ∧ ∀ k, k ∈ (l.foldl (fun m c =>
          m.set (connectionKey num c.1) (c.2, c.1)) m).keys
        ↔ k ∈ m.keys ∨ ∃ c ∈ l, connectionKey num c.1 = k := by
  induction l generalizing m with
  | nil => simp
  | cons c rest ih =>
    obtain ⟨hentries, hkeys⟩ := ih (m.set (connectionKey num c.1) (c.2, c.1))
    rw [foldl_cons]
    constructor
    · intro p hp
      rcases hentries p hp with hset | ⟨d, hd, rfl⟩
      · rcases mem_entries_set.mp hset with rfl | ⟨hm, -⟩
        · exact .inr ⟨c, mem_cons_self .., rfl⟩
        · exact .inl hm
      · exact .inr ⟨d, mem_cons_of_mem _ hd, rfl⟩
    · intro k
      have hcons : (∃ d ∈ c :: rest, connectionKey num d.1 = k)
          ↔ connectionKey num c.1 = k ∨ ∃ d ∈ rest, connectionKey num d.1 = k := by simp
      rw [hkeys, mem_keys_set, hcons, eq_comm (a := k)]
      tauto

theorem mem_connectionMap {connections : List (ConnectionObject N)}
    {p : JsString × Nat × ConnectionObject N}
    (h : p ∈ (connectionMap num connections).entries) :
    p.1 = connectionKey num p.2.2 ∧ p.2.2 ∈ connections := by
  rcases (foldl_connectionKey connections.zipIdx .empty).1 p h with
    hempty | ⟨c, hc, rfl⟩
  · cases hempty
  · exact ⟨rfl, (mem_zipIdx' hc).2 ▸ getElem_mem _⟩

theorem has_connectionMap {connections : List (ConnectionObject N)} :
    (connectionMap num connections).has (connectionKey num c) = true ↔ c ∈ connections := by
  rw [has_iff, connectionMap, (foldl_connectionKey connections.zipIdx .empty).2]
  constructor
  · rintro (hempty | ⟨d, hd, hkey⟩)
    · cases hempty
    · rw [← connectionKey_injective hkey]
      exact (mem_zipIdx' hd).2 ▸ getElem_mem _
  · intro hc
    obtain ⟨i, hi, rfl⟩ := getElem_of_mem hc
    exact .inr ⟨(connections[i], i), mk_mem_zipIdx_iff_getElem?.mpr (getElem?_eq_getElem hi), rfl⟩

theorem mem_missing (num : NumberText N) (sourceIndex : Nat) {l k : List (ConnectionObject N)} :
    (∃ entry ∈ missing sourceIndex (connectionMap num l) (connectionMap num k),
        entry.connection = c) ↔ c ∈ l ∧ c ∉ k := by
  have hnot : ∀ d, (!(connectionMap num k).has (connectionKey num d)) = true ↔ d ∉ k := fun d => by
    rw [Bool.not_eq_true', ← Bool.not_eq_true, has_connectionMap]
  constructor
  · rintro ⟨entry, hentry, rfl⟩
    obtain ⟨p, hp, rfl⟩ := mem_map.mp hentry
    obtain ⟨hmem, hmissing⟩ := mem_filter.mp hp
    obtain ⟨hkey, hl⟩ := mem_connectionMap hmem
    rw [hkey] at hmissing
    exact ⟨hl, (hnot _).mp hmissing⟩
  · rintro ⟨hl, hk⟩
    obtain ⟨p, hp, hkey⟩ := mem_map.mp (has_iff.mp (has_connectionMap.mpr hl))
    obtain ⟨hpkey, -⟩ := mem_connectionMap hp
    rw [hpkey] at hkey
    have hc := connectionKey_injective hkey
    refine ⟨_, mem_map_of_mem (mem_filter.mpr ⟨hp, ?_⟩), hc⟩
    rw [hpkey, hc]
    exact (hnot c).mpr hk

theorem missing_sourceIndex {sourceIndex : Nat}
    {own other : OrderedMap JsString (Nat × ConnectionObject N)}
    {entry : ConnectionEntry N} (h : entry ∈ missing sourceIndex own other) :
    entry.sourceIndex = sourceIndex := by
  obtain ⟨p, -, rfl⟩ := mem_map.mp h
  rfl

end

/-! ## What the walk reports -/

/-- What is reported under two names. -/
def entriesAt (reported : Reported N) (nodeName inputName : String) : List (ConnectionEntry N) :=
  (((reported.get? nodeName).getD .empty).get? inputName).getD []

abbrev PlacedObject (N : Type) := Placed String String (ConnectionObject N)

def HasReport (reported : Reported N) (e : PlacedObject N) : Prop :=
  ∃ entry ∈ entriesAt reported e.outer e.inner,
    entry.sourceIndex = e.index ∧ entry.connection = e.value

/-- No report is under an inherited name, and no key without a report. -/
structure Tidy (reported : Reported N) : Prop where
  node : ∀ n byInput, reported.get? n = some byInput → n ∉ objectPrototype
  input : ∀ n byInput i entries, reported.get? n = some byInput →
    byInput.get? i = some entries → i ∉ objectPrototype
  filled : ∀ n byInput, reported.get? n = some byInput → ∃ i, entriesAt reported n i ≠ []

/-- Neither name is inherited. -/
def Plain (nodeName inputName : String) : Prop :=
  nodeName ∉ objectPrototype ∧ inputName ∉ objectPrototype

def placed (nodeName inputName : String) (entry : ConnectionEntry N) : PlacedObject N :=
  { outer := nodeName, inner := inputName, index := entry.sourceIndex
    value := entry.connection }

/-- One push into the object of a node. -/
def pushed (reported : Reported N) (nodeName inputName : String)
    (entry : ConnectionEntry N) : Reported N :=
  reported.set nodeName (((reported.get? nodeName).getD .empty).set inputName
    (entriesAt reported nodeName inputName ++ [entry]))

section

variable (reported : Reported N) (nodeName inputName : String) (entry : ConnectionEntry N)

theorem entriesAt_pushed (n i : String) :
    entriesAt (pushed reported nodeName inputName entry) n i
      = if nodeName = n ∧ inputName = i
        then entriesAt reported n i ++ [entry] else entriesAt reported n i := by
  rw [entriesAt, pushed, get?_set]
  by_cases hn : nodeName = n
  · subst hn
    rw [if_pos rfl, Option.getD_some, get?_set]
    by_cases hi : inputName = i
    · subst hi
      rw [if_pos rfl, if_pos ⟨rfl, rfl⟩, Option.getD_some]
    · rw [if_neg hi, if_neg fun h => hi h.2]
      rfl
  · rw [if_neg hn, if_neg fun h => hn h.1]
    rfl

theorem hasReport_pushed (e : PlacedObject N) :
    HasReport (pushed reported nodeName inputName entry) e
      ↔ HasReport reported e ∨ e = placed nodeName inputName entry := by
  rw [HasReport, HasReport, entriesAt_pushed]
  constructor
  · rintro ⟨x, hx, hindex, hvalue⟩
    split at hx
    · next hnames =>
        rcases mem_append.mp hx with hold | hnew
        · exact .inl ⟨x, hold, hindex, hvalue⟩
        · refine .inr ?_
          obtain ⟨outer, inner, index, value⟩ := e
          obtain ⟨rfl, rfl⟩ := hnames
          cases mem_singleton.mp hnew
          cases hindex
          cases hvalue
          rfl
    · exact .inl ⟨x, hx, hindex, hvalue⟩
  · rintro (⟨x, hx, hindex, hvalue⟩ | rfl)
    · refine ⟨x, ?_, hindex, hvalue⟩
      split
      · exact mem_append_left _ hx
      · exact hx
    · rw [if_pos ⟨rfl, rfl⟩]
      exact ⟨entry, mem_append_right _ (mem_singleton_self _), rfl,
        rfl⟩

variable {reported nodeName inputName}

theorem Tidy.pushed (h : Tidy reported) (hplain : Plain nodeName inputName) :
    Tidy (pushed reported nodeName inputName entry) := by
  refine ⟨fun n byInput hget => ?_, fun n byInput i entries hget hinput => ?_,
    fun n byInput hget => ?_⟩
  · rw [N8nConnectionsDiff.pushed, get?_set] at hget
    split at hget
    · next hn => exact hn ▸ hplain.1
    · exact h.node n byInput hget
  · rw [N8nConnectionsDiff.pushed, get?_set] at hget
    split at hget
    · cases hget
      rw [get?_set] at hinput
      split at hinput
      · next hi => exact hi ▸ hplain.2
      · rcases hnode : reported.get? nodeName with _ | found
        · rw [hnode] at hinput
          cases hinput
        · rw [hnode] at hinput
          exact h.input nodeName found i entries hnode hinput
    · exact h.input n byInput i entries hget hinput
  · by_cases hn : nodeName = n
    · refine ⟨inputName, ?_⟩
      rw [entriesAt_pushed, if_pos ⟨hn, rfl⟩]
      exact append_ne_nil_of_right_ne_nil _ (cons_ne_nil _ _)
    · rw [N8nConnectionsDiff.pushed, get?_set, if_neg hn] at hget
      obtain ⟨i, hi⟩ := h.filled n byInput hget
      refine ⟨i, ?_⟩
      rw [entriesAt_pushed, if_neg fun hnames => hn hnames.1]
      exact hi

end

theorem reports_report (nodeName inputName : String) (entry : ConnectionEntry N) :
    Reports Tidy HasReport (fun reported => report reported nodeName inputName entry)
      (Plain nodeName inputName) fun e => e = placed nodeName inputName entry := by
  have hpush : ∀ reported : Reported N, Tidy reported →
      (Plain nodeName inputName ∧ report reported nodeName inputName entry
        = .ok (pushed reported nodeName inputName entry))
      ∨ ¬ Plain nodeName inputName
        ∧ ∃ error, report reported nodeName inputName entry = .error error := by
    intro reported h
    rw [report, pushed, entriesAt]
    rcases hnode : reported.get? nodeName with _ | byInput
    · by_cases hn : nodeName ∈ objectPrototype
      · exact .inr ⟨fun hplain => hplain.1 hn, _, if_pos hn⟩
      · by_cases hi : inputName ∈ objectPrototype
        · exact .inr ⟨fun hplain => hplain.2 hi, _, (if_neg hn).trans (if_pos hi)⟩
        · exact .inl ⟨⟨hn, hi⟩, (if_neg hn).trans (if_neg hi)⟩
    · have hn := h.node nodeName byInput hnode
      rcases hinput : byInput.get? inputName with _ | entries
      · by_cases hi : inputName ∈ objectPrototype
        · refine .inr ⟨fun hplain => hplain.2 hi, .typeError, ?_⟩
          simp [hinput, if_pos hi]
        · refine .inl ⟨⟨hn, hi⟩, ?_⟩
          simp [hinput, if_neg hi]
      · refine .inl ⟨⟨hn, h.input nodeName byInput inputName entries hnode hinput⟩, ?_⟩
        simp [hinput]
  constructor
  · intro reported h hplain
    rcases hpush reported h with ⟨-, hok⟩ | ⟨hno, -⟩
    · exact ⟨_, hok⟩
    · exact absurd hplain hno
  · intro reported t h hok
    rcases hpush reported h with ⟨hplain, hpushed⟩ | ⟨-, error, herror⟩
    · rw [hpushed] at hok
      cases hok
      exact ⟨hplain, h.pushed entry hplain, hasReport_pushed reported nodeName inputName entry⟩
    · rw [herror] at hok
      cases hok

def TidyDiff (diff : ConnectionsDiff N) : Prop := Tidy diff.added ∧ Tidy diff.removed

/-- A report as added (`true`) or as removed. -/
def HasChange (diff : ConnectionsDiff N) : Bool × PlacedObject N → Prop
  | (true, e) => HasReport diff.added e
  | (false, e) => HasReport diff.removed e

section

variable (nodeName inputName : String) (entry : ConnectionEntry N)

theorem reports_reportAdded :
    Reports TidyDiff HasChange (fun diff => reportAdded nodeName inputName diff entry)
      (Plain nodeName inputName) fun e => e = (true, placed nodeName inputName entry) := by
  have h := reports_report nodeName inputName entry
  constructor
  · intro diff hdiff hplain
    obtain ⟨added, hok⟩ := h.succeeds diff.added hdiff.1 hplain
    exact ⟨_, by rw [reportAdded, hok]; rfl⟩
  · intro diff t hdiff hok
    rw [reportAdded] at hok
    rcases hstep : report diff.added nodeName inputName entry with _ | added
    · rw [hstep] at hok
      cases hok
    · rw [hstep] at hok
      cases hok
      obtain ⟨hplain, htidy, hhas⟩ := h.spec diff.added added hdiff.1 hstep
      refine ⟨hplain, ⟨htidy, hdiff.2⟩, ?_⟩
      rintro ⟨_ | _, e⟩
      · exact (or_iff_left fun heq => by cases heq).symm
      · refine (hhas e).trans (or_congr_right ?_)
        exact ⟨fun he => by rw [he], fun he => (Prod.mk.inj he).2⟩

theorem reports_reportRemoved :
    Reports TidyDiff HasChange (fun diff => reportRemoved nodeName inputName diff entry)
      (Plain nodeName inputName) fun e => e = (false, placed nodeName inputName entry) := by
  have h := reports_report nodeName inputName entry
  constructor
  · intro diff hdiff hplain
    obtain ⟨removed, hok⟩ := h.succeeds diff.removed hdiff.2 hplain
    exact ⟨_, by rw [reportRemoved, hok]; rfl⟩
  · intro diff t hdiff hok
    rw [reportRemoved] at hok
    rcases hstep : report diff.removed nodeName inputName entry with _ | removed
    · rw [hstep] at hok
      cases hok
    · rw [hstep] at hok
      cases hok
      obtain ⟨hplain, htidy, hhas⟩ := h.spec diff.removed removed hdiff.2 hstep
      refine ⟨hplain, ⟨hdiff.1, htidy⟩, ?_⟩
      rintro ⟨_ | _, e⟩
      · refine (hhas e).trans (or_congr_right ?_)
        exact ⟨fun he => by rw [he], fun he => (Prod.mk.inj he).2⟩
      · exact (or_iff_left fun heq => by cases heq).symm

end

/-- Of two lists of connections, what only the second one has (`true`), or
    what only the first one has. -/
def Changed (prev next : List (ConnectionObject N)) :
    Bool → ConnectionObject N → Prop
  | true, c => c ∈ next ∧ c ∉ prev
  | false, c => c ∈ prev ∧ c ∉ next

def slotAt (slots : Slots (ConnectionObject N)) (index : Nat) :
    List (ConnectionObject N) := (slots[index]?.join).getD []

section

variable (num : NumberText N)

theorem reports_compareSlot (nodeName inputName : String)
    (prev next : Slots (ConnectionObject N)) (sourceIndex : Nat) :
    Reports TidyDiff HasChange
      (fun diff => compareSlot num nodeName inputName prev next diff sourceIndex)
      (∀ b c, Changed (slotAt prev sourceIndex) (slotAt next sourceIndex) b c
        → Plain nodeName inputName) fun e => e.2.outer = nodeName ∧ e.2.inner = inputName
        ∧ e.2.index = sourceIndex
        ∧ Changed (slotAt prev sourceIndex) (slotAt next sourceIndex) e.1 e.2.value := by
  have hmissing : ∀ (l k : List (ConnectionObject N)) (e : PlacedObject N),
      (∃ entry ∈ missing sourceIndex (connectionMap num l)
          (connectionMap num k), e = placed nodeName inputName entry)
        ↔ e.outer = nodeName ∧ e.inner = inputName ∧ e.index = sourceIndex
          ∧ e.value ∈ l ∧ e.value ∉ k := by
    intro l k e
    rw [← mem_missing num sourceIndex]
    constructor
    · rintro ⟨entry, hentry, rfl⟩
      exact ⟨rfl, rfl, missing_sourceIndex hentry, entry, hentry, rfl⟩
    · rintro ⟨rfl, rfl, hindex, entry, hentry, hvalue⟩
      refine ⟨entry, hentry, ?_⟩
      rw [placed, missing_sourceIndex hentry, hvalue, ← hindex]
  refine ((reports_foldlM fun entry _ =>
    reports_reportAdded nodeName inputName entry).bind
      (reports_foldlM fun entry _ =>
        reports_reportRemoved nodeName inputName entry)).congr ?_ ?_
  · constructor
    · rintro ⟨hadded, hremoved⟩ (_ | _) c hc
      · obtain ⟨entry, hentry, -⟩ :=
          (mem_missing num sourceIndex).mpr hc
        exact hremoved entry hentry
      · obtain ⟨entry, hentry, -⟩ :=
          (mem_missing num sourceIndex).mpr hc
        exact hadded entry hentry
    · intro h
      exact ⟨fun entry hentry => h true entry.connection
          ((mem_missing num sourceIndex).mp ⟨entry, hentry, rfl⟩),
        fun entry hentry => h false entry.connection
          ((mem_missing num sourceIndex).mp ⟨entry, hentry, rfl⟩)⟩
  · rintro - ⟨_ | _, e⟩
    · refine Iff.trans ?_ (hmissing _ _ e)
      constructor
      · rintro (⟨entry, -, heq⟩ | ⟨entry, hentry, heq⟩)
        · cases heq
        · exact ⟨entry, hentry, (Prod.mk.inj heq).2⟩
      · rintro ⟨entry, hentry, rfl⟩
        exact .inr ⟨entry, hentry, rfl⟩
    · refine Iff.trans ?_ (hmissing _ _ e)
      constructor
      · rintro (⟨entry, hentry, heq⟩ | ⟨entry, -, heq⟩)
        · exact ⟨entry, hentry, (Prod.mk.inj heq).2⟩
        · cases heq
      · rintro ⟨entry, hentry, rfl⟩
        exact .inl ⟨entry, hentry, rfl⟩

/-- What is read for an input, if it is walked at all. -/
def Walked (prev next : NodeObject N) (inputName : String)
    (prevSlots nextSlots : Slots (ConnectionObject N)) : Prop :=
  prev.input inputName = .ok (some prevSlots) ∧ next.input inputName = .ok (some nextSlots)

theorem changed_lt {prev next : Slots (ConnectionObject N)} {index : Nat}
    {b : Bool} {c : ConnectionObject N}
    (h : Changed (slotAt prev index) (slotAt next index) b c) :
    index < max prev.length next.length := by
  have hlt : ∀ {slots : Slots (ConnectionObject N)}, c ∈ slotAt slots index →
      index < slots.length := by
    intro slots hc
    by_contra hle
    rw [slotAt, getElem?_eq_none (Nat.not_lt.mp hle)] at hc
    cases hc
  cases b with
  | false => exact Nat.lt_of_lt_of_le (hlt h.1) (Nat.le_max_left ..)
  | true => exact Nat.lt_of_lt_of_le (hlt h.1) (Nat.le_max_right ..)

/-- Both lookups of an input succeed, and a difference at one of its
    positions can be reported. -/
def InputOk (nodeName : String) (prev next : NodeObject N) (inputName : String) : Prop :=
  (∃ p, prev.input inputName = .ok p) ∧ (∃ q, next.input inputName = .ok q)
    ∧ ∀ p q, Walked prev next inputName p q → ∀ index b c, Changed (slotAt p index)
    (slotAt q index) b c → Plain nodeName inputName

def InputChange (nodeName : String) (prev next : NodeObject N)
    (inputName : String) (e : Bool × PlacedObject N) : Prop :=
  e.2.outer = nodeName ∧ e.2.inner = inputName
    ∧ ∃ p q, Walked prev next inputName p q
      ∧ Changed (slotAt p e.2.index) (slotAt q e.2.index) e.1 e.2.value

theorem reports_compareInput (nodeName : String) (prev next : NodeObject N) (inputName : String) :
    Reports TidyDiff HasChange (fun diff => compareInput num nodeName prev next diff inputName)
      (InputOk nodeName prev next inputName) (InputChange nodeName prev next inputName) := by
  -- A lookup that fails, and one that finds no list.
  have hfails : ∀ error, ¬ InputOk nodeName prev next inputName →
      (∀ diff, compareInput num nodeName prev next diff inputName
        = .error error) → Reports TidyDiff HasChange
        (fun diff => compareInput num nodeName prev next diff inputName)
        (InputOk nodeName prev next inputName) (InputChange nodeName prev next inputName) := by
    intro error hno hstep
    rw [funext hstep]
    exact (reports_error error fun _ => False).congr (iff_of_false id hno) fun h => absurd h hno
  have hskips : (∃ p, prev.input inputName = .ok p) →
      (∃ q, next.input inputName = .ok q) → (∀ p q, ¬ Walked prev next inputName p q) →
      (∀ diff, compareInput num nodeName prev next diff inputName
        = .ok diff) → Reports TidyDiff HasChange
        (fun diff => compareInput num nodeName prev next diff inputName)
        (InputOk nodeName prev next inputName) (InputChange nodeName prev next inputName) := by
    intro hp hq hno hstep
    rw [funext hstep]
    refine reports_ok.congr (iff_of_true trivial ⟨hp, hq, ?_⟩) fun _ e => ?_
    · exact fun p q hwalked => absurd hwalked (hno p q)
    · refine iff_of_false id ?_
      rintro ⟨-, -, p, q, hwalked, -⟩
      exact hno p q hwalked
  rcases hprev : prev.input inputName with error | p
  · refine hfails error ?_ fun diff => by rw [compareInput, hprev]; rfl
    rintro ⟨⟨p, hp⟩, -⟩
    rw [hprev] at hp
    cases hp
  · rcases hnext : next.input inputName with error | q
    · refine hfails error ?_ fun diff => by
        rw [compareInput, hprev, hnext]
        rfl
      rintro ⟨-, ⟨q, hq⟩, -⟩
      rw [hnext] at hq
      cases hq
    · rcases p with _ | p
      · refine hskips ⟨_, hprev⟩ ⟨_, hnext⟩ ?_ fun diff => by
          rw [compareInput, hprev, hnext]
          rfl
        rintro p q ⟨hp, -⟩
        rw [hprev] at hp
        cases hp
      · rcases q with _ | q
        · refine hskips ⟨_, hprev⟩ ⟨_, hnext⟩ ?_ fun diff => by
            rw [compareInput, hprev, hnext]
            rfl
          rintro p q ⟨-, hq⟩
          rw [hnext] at hq
          cases hq
        · have hwalked : ∀ p' q', Walked prev next inputName p' q'
              ↔ p' = p ∧ q' = q := by
            intro p' q'
            rw [Walked, hprev, hnext]
            simp [eq_comm]
          have hstep : ∀ diff, compareInput num nodeName prev next diff inputName
                = (List.range (max p.length q.length)).foldlM
                  (compareSlot num nodeName inputName p q) diff := by
            intro diff
            rw [compareInput, hprev, hnext]
            rfl
          rw [funext hstep]
          refine (reports_foldlM fun index _ => reports_compareSlot num
            nodeName inputName p q index).congr ?_ fun _ e => ?_
          · constructor
            · intro h
              refine ⟨⟨_, hprev⟩, ⟨_, hnext⟩, fun p' q' hw index b c hc => ?_⟩
              obtain ⟨rfl, rfl⟩ := (hwalked p' q').mp hw
              exact h index (mem_range.mpr (changed_lt hc)) b c hc
            · rintro ⟨-, -, h⟩ index - b c hc
              exact h p q ((hwalked p q).mpr ⟨rfl, rfl⟩) index b c hc
          · constructor
            · rintro ⟨index, -, houter, hinner, rfl, hc⟩
              exact ⟨houter, hinner, p, q, (hwalked p q).mpr ⟨rfl, rfl⟩, hc⟩
            · rintro ⟨houter, hinner, p', q', hw, hc⟩
              obtain ⟨rfl, rfl⟩ := (hwalked p' q').mp hw
              exact ⟨e.2.index, mem_range.mpr (changed_lt hc), houter, hinner, rfl, hc⟩

/-- The names walked for a node. -/
def inputNames (prev next : NodeObject N) : List String := (prev.keys ++ next.keys).eraseDups

def nodeNames (prev next : IConnections N) : List String :=
  (propertyOrder prev.keys ++ propertyOrder next.keys).eraseDups

/-- **THE WALK**: when it succeeds, and what it reports then. -/
theorem reports_compareConnections (prev next : IConnections N) :
    Reports TidyDiff HasChange
      (fun diff => (nodeNames prev next).foldlM
        (fun diff nodeName =>
          (inputNames (nodeObject prev nodeName) (nodeObject next nodeName)).foldlM
            (compareInput num nodeName (nodeObject prev nodeName)
              (nodeObject next nodeName)) diff) diff)
      (∀ nodeName ∈ nodeNames prev next,
        ∀ inputName ∈ inputNames (nodeObject prev nodeName) (nodeObject next nodeName),
        InputOk nodeName (nodeObject prev nodeName) (nodeObject next nodeName) inputName)
      fun e => ∃ nodeName ∈ nodeNames prev next,
        ∃ inputName ∈ inputNames (nodeObject prev nodeName) (nodeObject next nodeName),
        InputChange nodeName (nodeObject prev nodeName) (nodeObject next nodeName) inputName e :=
  reports_foldlM fun nodeName _ => reports_foldlM fun inputName _ =>
    reports_compareInput num nodeName _ _ inputName

end

/-! ## Lookups against the tables -/

section

variable {table : IConnections N} {nodeName inputName : String}

theorem nodeObject_own (h : nodeName ∈ table.keys ∨ nodeName ∉ objectPrototype) :
    nodeObject table nodeName = .own (innerOf table nodeName) := by
  rw [nodeObject, innerOf]
  rcases hget : table.get? nodeName with _ | byInput
  · have hkey := get?_eq_none.mp hget
    exact if_neg (h.resolve_left hkey)
  · rfl

theorem nodeObject_inherited (hkey : nodeName ∉ table.keys) (hproto : nodeName ∈ objectPrototype) :
    nodeObject table nodeName = .inherited nodeName := by
  rw [nodeObject, get?_eq_none.mpr hkey]
  exact if_pos hproto

theorem input_own (byInput : INodeConnections N)
    (h : inputName ∈ byInput.keys ∨ inputName ∉ objectPrototype) :
    (NodeObject.own byInput).input inputName = .ok (some (slotsOf byInput inputName)) := by
  rw [NodeObject.input, slotsOf]
  rcases hget : byInput.get? inputName with _ | slots
  · have hkey := get?_eq_none.mp hget
    have hne : inputName ≠ "__proto__" := by
      rintro rfl
      exact h.resolve_left hkey (by decide)
    exact if_neg hne
  · rfl

theorem input_some {slots : Slots (ConnectionObject N)}
    (h : (nodeObject table nodeName).input inputName = .ok (some slots)) :
    slots = slotsOf (innerOf table nodeName) inputName := by
  by_cases hown : nodeName ∈ table.keys ∨ nodeName ∉ objectPrototype
  · rw [nodeObject_own hown, NodeObject.input] at h
    rw [slotsOf]
    rcases hget : (innerOf table nodeName).get? inputName with _ | found
    · rw [hget] at h
      dsimp only at h
      split at h
      · cases h
      · cases h
        rfl
    · rw [hget] at h
      cases h
      rfl
  · obtain ⟨hkey, hproto⟩ := not_or.mp hown
    rw [nodeObject_inherited hkey (not_not.mp hproto), NodeObject.input] at h
    rw [innerOf, get?_eq_none.mpr hkey]
    split_ifs at h <;> cases h <;> rfl

theorem input_of_plain (h : Plain nodeName inputName) : (nodeObject table nodeName).input inputName
      = .ok (some (slotsOf (innerOf table nodeName) inputName)) := by
  rw [nodeObject_own (.inr h.1), input_own _ (.inr h.2)]

variable {e : PlacedObject N}

theorem keys_of_value (h : e ∈ values table) :
    e.outer ∈ table.keys ∧ e.inner ∈ (innerOf table e.outer).keys := by
  have hvalue := mem_values.mp h
  rw [valuesAt, slotsOf] at hvalue
  have hinner : e.inner ∈ (innerOf table e.outer).keys := by
    by_contra hno
    rw [get?_eq_none.mpr hno] at hvalue
    cases hvalue
  refine ⟨?_, hinner⟩
  by_contra hno
  rw [innerOf, get?_eq_none.mpr hno] at hinner
  cases hinner

theorem input_of_value (h : e ∈ values table) : (nodeObject table e.outer).input e.inner
      = .ok (some (slotsOf (innerOf table e.outer) e.inner)) := by
  obtain ⟨houter, hinner⟩ := keys_of_value h
  rw [nodeObject_own (.inl houter), input_own _ (.inl hinner)]

theorem mem_keys_of_value (h : e ∈ values table) : e.inner ∈ (nodeObject table e.outer).keys := by
  obtain ⟨houter, hinner⟩ := keys_of_value h
  rw [nodeObject_own (.inl houter), NodeObject.keys]
  exact mem_propertyOrder.mpr hinner

end

/-! ## The exact diff -/

/-- A connection from an output of a node, however it was written. -/
abbrev Edge (N : Type) := Placed String String (IConnection N)

def edge (e : PlacedObject N) : Edge N :=
  { outer := e.outer, inner := e.inner, index := e.index
    value := e.value.value }

def edges (table : IConnections N) : List (Edge N) := (values table).map edge

/-- What is reported, however it was written. -/
def reportedEdge (reported : Reported N) (e : Edge N) : Prop :=
  ∃ p, HasReport reported p ∧ edge p = e

/-- The diff reports the edges of one table that the other does not have,
    is empty for equal tables only, and leads from the first to the
    second. -/
def ExactDiff (num : NumberText N) (prev next : IConnections N) : Prop :=
  ∃ diff, compareConnections num prev next = .ok diff
    ∧ (∀ e, reportedEdge diff.added e ↔ e ∈ edges next ∧ e ∉ edges prev)
    ∧ (∀ e, reportedEdge diff.removed e ↔ e ∈ edges prev ∧ e ∉ edges next)
    ∧ (diff.added.entries = [] ∧ diff.removed.entries = [] ↔ ∀ e, e ∈ edges prev ↔ e ∈ edges next)
    ∧ ∀ e, (e ∈ edges prev ∧ ¬ reportedEdge diff.removed e)
        ∨ reportedEdge diff.added e ↔ e ∈ edges next

/-- An input of a node that only one table has is read off the function
    every object inherits under the name of the node, where it throws. -/
def ReadsFunction (own other : IConnections N) : Prop :=
  ∃ n i, n ∈ objectPrototype ∧ n ≠ "__proto__" ∧ n ∉ other.keys
    ∧ i ∈ ["name", "arguments", "caller"] ∧ i ∈ (innerOf own n).keys

/-- Where the diff is exact: inherited names make no difference, equal
    connections at one place are written alike, and no function is read. -/
structure Comparable (prev next : IConnections N) : Prop where
  names : ∀ e : Edge N, ¬ Plain e.outer e.inner → (e ∈ edges prev ↔ e ∈ edges next)
  written : ∀ p ∈ values prev, ∀ q ∈ values next, edge p = edge q →
    p ∈ values next ∧ q ∈ values prev
  reads : ¬ ReadsFunction prev next ∧ ¬ ReadsFunction next prev

section

variable {num : NumberText N} {prev next : IConnections N}

/-- What one table has and the other does not, as written. -/
def TableChange (prev next : IConnections N) :
    Bool × PlacedObject N → Prop
  | (true, e) => e ∈ values next ∧ e ∉ values prev
  | (false, e) => e ∈ values prev ∧ e ∉ values next

variable {e : Bool × PlacedObject N}

theorem changed_iff :
    Changed (slotAt (slotsOf (innerOf prev e.2.outer) e.2.inner) e.2.index)
        (slotAt (slotsOf (innerOf next e.2.outer) e.2.inner) e.2.index) e.1 e.2.value
      ↔ TableChange prev next e := by
  obtain ⟨_ | _, e⟩ := e
  · exact and_congr mem_values.symm (not_congr mem_values.symm)
  · exact and_congr mem_values.symm (not_congr mem_values.symm)

variable {n : String}

theorem mem_nodeNames : n ∈ nodeNames prev next ↔ n ∈ prev.keys ∨ n ∈ next.keys := by
  rw [nodeNames, mem_eraseDups, mem_append, mem_propertyOrder, mem_propertyOrder]

variable {i : String}

theorem mem_inputNames {p q : NodeObject N} : i ∈ inputNames p q ↔ i ∈ p.keys ∨ i ∈ q.keys := by
  rw [inputNames, mem_eraseDups, mem_append]

theorem TableChange.names (h : TableChange prev next e) :
    e.2.outer ∈ nodeNames prev next
      ∧ e.2.inner ∈ inputNames (nodeObject prev e.2.outer) (nodeObject next e.2.outer) := by
  rw [mem_nodeNames, mem_inputNames]
  obtain ⟨_ | _, e⟩ := e
  · exact ⟨.inl (keys_of_value h.1).1, .inl (mem_keys_of_value h.1)⟩
  · exact ⟨.inr (keys_of_value h.1).1, .inr (mem_keys_of_value h.1)⟩

theorem inputChange_iff :
    InputChange n (nodeObject prev n) (nodeObject next n) i e
      ↔ e.2.outer = n ∧ e.2.inner = i ∧ TableChange prev next e
        ∧ ∃ p q, Walked (nodeObject prev n) (nodeObject next n) i p q := by
  constructor
  · rintro ⟨rfl, rfl, p, q, hwalked, hchanged⟩
    refine ⟨rfl, rfl, ?_, p, q, hwalked⟩
    rw [input_some hwalked.1, input_some hwalked.2] at hchanged
    exact changed_iff.mp hchanged
  · rintro ⟨rfl, rfl, hchange, p, q, hwalked⟩
    refine ⟨rfl, rfl, p, q, hwalked, ?_⟩
    rw [input_some hwalked.1, input_some hwalked.2]
    exact changed_iff.mpr hchange

theorem tidyDiff_empty : TidyDiff ({ added := .empty, removed := .empty } : ConnectionsDiff N) :=
  ⟨⟨fun _ _ h => (by cases h), fun _ _ _ _ h => (by cases h), fun _ _ h => by cases h⟩,
    ⟨fun _ _ h => (by cases h), fun _ _ _ _ h => (by cases h), fun _ _ h => by cases h⟩⟩

variable {reported : Reported N}

theorem Tidy.plain (h : Tidy reported) {e : PlacedObject N} (he : HasReport reported e) :
    Plain e.outer e.inner := by
  obtain ⟨entry, hentry, -⟩ := he
  rw [entriesAt] at hentry
  rcases hnode : reported.get? e.outer with _ | byInput
  · rw [hnode] at hentry
    cases hentry
  · rw [hnode, Option.getD_some] at hentry
    rcases hinput : byInput.get? e.inner with _ | entries
    · rw [hinput] at hentry
      cases hentry
    · exact ⟨h.node _ _ hnode, h.input _ _ _ _ hnode hinput⟩

theorem Tidy.entries_eq_nil (h : Tidy reported) :
    reported.entries = [] ↔ ∀ e, ¬ HasReport reported e := by
  constructor
  · rintro hnil e ⟨entry, hentry, -⟩
    have hget : reported.get? e.outer = none := by
      rw [get?_eq_none, OrderedMap.keys, hnil]
      exact fun hmem => by cases hmem
    rw [entriesAt, hget] at hentry
    cases hentry
  · intro hno
    refine eq_nil_iff_forall_not_mem.mpr fun p hp => ?_
    obtain ⟨i, hi⟩ := h.filled p.1 p.2 (get?_eq_some.mpr hp)
    obtain ⟨entry, hentry⟩ := exists_mem_of_ne_nil _ hi
    exact hno (placed p.1 i entry) ⟨entry, hentry, rfl, rfl⟩

theorem compareConnections_spec {diff : ConnectionsDiff N}
    (h : compareConnections num prev next = .ok diff) :
    (∀ n ∈ nodeNames prev next, ∀ i ∈ inputNames (nodeObject prev n) (nodeObject next n),
        InputOk n (nodeObject prev n) (nodeObject next n) i)
      ∧ TidyDiff diff
      ∧ ∀ e, HasChange diff e ↔ TableChange prev next e
        ∧ ∃ p q, Walked (nodeObject prev e.2.outer) (nodeObject next e.2.outer) e.2.inner p q := by
  obtain ⟨hok, htidy, hhas⟩ := (reports_compareConnections num prev next).spec _ _ tidyDiff_empty h
  refine ⟨hok, htidy, fun e => (hhas e).trans ?_⟩
  have hempty : ¬ HasChange ({ added := .empty, removed := .empty } :
      ConnectionsDiff N) e := by
    obtain ⟨_ | _, e⟩ := e
    · rintro ⟨entry, hentry, -⟩
      cases hentry
    · rintro ⟨entry, hentry, -⟩
      cases hentry
  rw [or_iff_right hempty]
  constructor
  · rintro ⟨n, -, i, -, hchange⟩
    obtain ⟨rfl, rfl, htable, hwalked⟩ := inputChange_iff.mp hchange
    exact ⟨htable, hwalked⟩
  · rintro ⟨htable, hwalked⟩
    obtain ⟨hn, hi⟩ := htable.names
    exact ⟨_, hn, _, hi, inputChange_iff.mpr ⟨rfl, rfl, htable, hwalked⟩⟩

theorem Comparable.symm (h : Comparable prev next) : Comparable next prev :=
  ⟨fun e he => (h.names e he).symm,
    fun p hp q hq heq => (h.written q hq p hp heq.symm).symm, h.reads.symm⟩

section

variable {e : PlacedObject N} (h : Comparable prev next) (hnext : e ∈ values next)
  (hprev : e ∉ values prev)
include h hnext hprev

theorem Comparable.fresh : edge e ∉ edges prev := by
  intro hmem
  obtain ⟨p, hp, heq⟩ := mem_map.mp hmem
  exact hprev (h.written p hp e hnext heq).2

theorem Comparable.plain_of_new : Plain e.outer e.inner := by
  by_contra hplain
  exact h.fresh hnext hprev ((h.names (edge e) hplain).mpr (mem_map_of_mem hnext))

end

theorem Comparable.plain (h : Comparable prev next) (he : TableChange prev next e) :
    Plain e.2.outer e.2.inner := by
  obtain ⟨_ | _, e⟩ := e
  · exact h.symm.plain_of_new he.1 he.2
  · exact h.plain_of_new he.1 he.2

theorem input_ok (hreads : ¬ ReadsFunction next prev)
    (hi : i ∈ (nodeObject prev n).keys ∨ i ∈ (nodeObject next n).keys) :
    ∃ p, (nodeObject prev n).input i = .ok p := by
  by_cases hown : n ∈ prev.keys ∨ n ∉ objectPrototype
  · rw [nodeObject_own hown, NodeObject.input]
    split
    · exact ⟨_, rfl⟩
    · split <;> exact ⟨_, rfl⟩
  · obtain ⟨hkey, hproto⟩ := not_or.mp hown
    rw [nodeObject_inherited hkey (not_not.mp hproto)] at hi ⊢
    have hnext : i ∈ (innerOf next n).keys := by
      rcases hi with hnil | hi
      · cases hnil
      · by_cases hother : n ∈ next.keys
        · rw [nodeObject_own (.inl hother)] at hi
          exact mem_propertyOrder.mp hi
        · rw [nodeObject_inherited hother (not_not.mp hproto)] at hi
          cases hi
    by_cases hn : n = "__proto__"
    · exact ⟨_, if_pos hn⟩
    · have hno : i ∉ ["name", "arguments", "caller"] := fun hmem =>
        hreads ⟨n, i, not_not.mp hproto, hn, hkey, hmem, hnext⟩
      simp only [mem_cons, not_mem_nil, or_false, not_or] at hno
      rw [NodeObject.input, if_neg hn, if_neg hno.1, if_neg fun hor =>
        hor.elim hno.2.1 hno.2.2]
      split
      · exact ⟨_, rfl⟩
      · split <;> exact ⟨_, rfl⟩

section

variable (h : Comparable prev next)
include h

theorem Comparable.succeeds : ∃ diff, compareConnections num prev next = .ok diff := by
  refine (reports_compareConnections num prev next).succeeds _ tidyDiff_empty fun n _ i hi => ?_
  have hi := mem_inputNames.mp hi
  refine ⟨input_ok h.reads.2 hi, input_ok h.reads.1 hi.symm, ?_⟩
  intro p q hwalked index b c hc
  obtain ⟨-, -, htable, -⟩ := inputChange_iff.mp
    (⟨rfl, rfl, p, q, hwalked, hc⟩ : InputChange n (nodeObject prev n)
      (nodeObject next n) i (b, ⟨n, i, index, c⟩))
  exact h.plain htable

theorem Comparable.hasChange_iff {diff : ConnectionsDiff N}
    (hok : compareConnections num prev next = .ok diff) (e : Bool × PlacedObject N) :
    HasChange diff e ↔ TableChange prev next e := by
  rw [(compareConnections_spec hok).2.2 e]
  refine and_iff_left_of_imp fun he => ?_
  have hplain := h.plain he
  exact ⟨_, _, input_of_plain hplain, input_of_plain hplain⟩

theorem Comparable.reportedEdge_iff (hreported : ∀ e, HasReport reported e
      ↔ e ∈ values next ∧ e ∉ values prev) (e : Edge N) :
    reportedEdge reported e ↔ e ∈ edges next ∧ e ∉ edges prev := by
  constructor
  · rintro ⟨p, hp, rfl⟩
    obtain ⟨hnext, hprev⟩ := (hreported p).mp hp
    exact ⟨mem_map_of_mem hnext, h.fresh hnext hprev⟩
  · rintro ⟨hnext, hprev⟩
    obtain ⟨p, hp, rfl⟩ := mem_map.mp hnext
    exact ⟨p, (hreported p).mpr ⟨hp, fun hmem =>
      hprev (mem_map_of_mem hmem)⟩, rfl⟩

theorem Comparable.exactDiff : ExactDiff num prev next := by
  obtain ⟨diff, hok⟩ : ∃ diff, compareConnections num prev next = .ok diff := h.succeeds
  have hhas := h.hasChange_iff hok
  have hadded := h.reportedEdge_iff fun e => hhas (true, e)
  have hremoved := h.symm.reportedEdge_iff fun e => hhas (false, e)
  obtain ⟨-, ⟨htidy, htidy'⟩, -⟩ := compareConnections_spec hok
  refine ⟨diff, hok, hadded, hremoved, ?_, ?_⟩
  · rw [htidy.entries_eq_nil, htidy'.entries_eq_nil]
    constructor
    · rintro ⟨hnone, hnone'⟩ e
      constructor
      · intro hprev
        by_contra hnext
        obtain ⟨p, hp, -⟩ := (hremoved e).mpr ⟨hprev, hnext⟩
        exact hnone' p hp
      · intro hnext
        by_contra hprev
        obtain ⟨p, hp, -⟩ := (hadded e).mpr ⟨hnext, hprev⟩
        exact hnone p hp
    · intro hsame
      refine ⟨fun p hp => ?_, fun p hp => ?_⟩
      · obtain ⟨hnext, hprev⟩ := (hadded (edge p)).mp ⟨p, hp, rfl⟩
        exact hprev ((hsame _).mpr hnext)
      · obtain ⟨hprev, hnext⟩ := (hremoved (edge p)).mp ⟨p, hp, rfl⟩
        exact hnext ((hsame _).mp hprev)
  · intro e
    rw [hadded, hremoved]
    tauto

end

theorem values_of_reported
    (hhas : ∀ e, e ∈ values next → e ∉ values prev → (nodeObject prev e.outer).input e.inner
        = .ok (some (slotsOf (innerOf prev e.outer) e.inner)) → HasReport reported e)
    (hexact : ∀ e, reportedEdge reported e → e ∉ edges prev)
    {p q : PlacedObject N} (hp : p ∈ values prev) (hq : q ∈ values next)
    (heq : edge p = edge q) : q ∈ values prev := by
  by_contra hno
  have houter : (edge p).outer = (edge q).outer := by rw [heq]
  have hinner : (edge p).inner = (edge q).inner := by rw [heq]
  have hwalked := input_of_value hp
  rw [show p.outer = q.outer from houter,
    show p.inner = q.inner from hinner] at hwalked
  exact hexact (edge q) ⟨q, hhas q hq hno hwalked, rfl⟩ (mem_map.mpr ⟨p, hp, heq⟩)

theorem not_readsFunction (hreads : ∀ n ∈ nodeNames prev next,
      ∀ i ∈ inputNames (nodeObject prev n) (nodeObject next n),
      ∃ q, (nodeObject next n).input i = .ok q) :
    ¬ ReadsFunction prev next := by
  rintro ⟨n, i, hproto, hne, hkey, hi, hinner⟩
  have hown : n ∈ prev.keys := by
    by_contra hno
    rw [innerOf, get?_eq_none.mpr hno] at hinner
    cases hinner
  have hkeys : i ∈ (nodeObject prev n).keys := by
    rw [nodeObject_own (.inl hown)]
    exact mem_propertyOrder.mpr hinner
  obtain ⟨q, hq⟩ := hreads n (mem_nodeNames.mpr (.inl hown)) i (mem_inputNames.mpr (.inl hkeys))
  rw [nodeObject_inherited hkey hproto, NodeObject.input, if_neg hne] at hq
  simp only [mem_cons, not_mem_nil, or_false] at hi
  rcases hi with rfl | hi
  · cases hq
  · split_ifs at hq

theorem ExactDiff.comparable (h : ExactDiff num prev next) : Comparable prev next := by
  obtain ⟨diff, hok, hadded, hremoved, -, -⟩ := h
  obtain ⟨hinputs, ⟨htidy, htidy'⟩, hhas⟩ := compareConnections_spec hok
  refine ⟨fun e hplain => ?_, fun p hp q hq heq => ?_, ?_, ?_⟩
  · constructor
    · intro hprev
      by_contra hnext
      obtain ⟨p, hp, rfl⟩ := (hremoved e).mpr ⟨hprev, hnext⟩
      exact hplain (htidy'.plain hp)
    · intro hnext
      by_contra hprev
      obtain ⟨p, hp, rfl⟩ := (hadded e).mpr ⟨hnext, hprev⟩
      exact hplain (htidy.plain hp)
  · constructor
    · refine values_of_reported (fun e hprev hnext hwalked => ?_)
        (fun e he => ((hremoved e).mp he).2) hq hp heq.symm
      exact (hhas (false, e)).mpr ⟨⟨hprev, hnext⟩, _, _, input_of_value hprev, hwalked⟩
    · refine values_of_reported (fun e hnext hprev hwalked => ?_)
        (fun e he => ((hadded e).mp he).2) hp hq heq
      exact (hhas (true, e)).mpr ⟨⟨hnext, hprev⟩, _, _, hwalked, input_of_value hnext⟩
  · exact not_readsFunction fun n hn i hi => (hinputs n hn i hi).2.1
  · refine not_readsFunction fun n hn i hi => (hinputs n ?_ i ?_).1
    · exact mem_nodeNames.mpr (mem_nodeNames.mp hn).symm
    · exact mem_inputNames.mpr (mem_inputNames.mp hi).symm

/-- **THE DIFF IS EXACT**, and where it is. -/
theorem exactDiff_iff (num : NumberText N) (prev next : IConnections N) :
    ExactDiff num prev next ↔ Comparable prev next :=
  ⟨ExactDiff.comparable, Comparable.exactDiff⟩

end

/-- A connection with its keys in the usual order. -/
def connectionObject (node : String) : ConnectionObject (Fin 10) :=
  { value := { node, type := "main", index := 0 }
    order := [.node, .type, .index], perm := List.Perm.refl _ }

/-- One connection, from a node named like what every object inherits. -/
def fromConstructor : IConnections (Fin 10) :=
  .set .empty "constructor" (.set .empty "main" [some [connectionObject "End"]])

theorem not_exactDiff_fromConstructor : ¬ ExactDiff digitText .empty fromConstructor := by
  intro h
  have hmem : (⟨"constructor", "main", 0, ⟨"End", "main", 0⟩⟩ :
      Edge (Fin 10)) ∈ edges fromConstructor := by decide
  have hempty := (h.comparable.names _ fun hplain =>
    hplain.1 (by decide)).mpr hmem
  cases hempty

end N8nConnectionsDiff
