import Mathlib.Data.List.Nodup
import N8n.ObjectClientsProofs

/-! # `augmentObject` — a copy made as far as it is changed

    A proxy stands for an object, and what is set, deleted or read below it
    is kept by its handlers.  Objects found under an augmented object are
    augmented when they are read; objects put into an augmented array are
    augmented when they are put there.  Under an augmented object they stay
    what they are.

    For a tree of plain data a client takes the proxy for a copy of its own
    (`augment_run`): every object is augmented by one proxy at most, and what
    is not yet augmented has been seen by nobody. -/

namespace N8nAugmentObject

open N8nOrderedMap N8nPlainObjects N8nObjectClients List OrderedMap

variable {P : Type}

/-! ## Objects and their proxies -/

/-- An object itself, or a proxy of it. -/
inductive Ref where
  | raw (n : Nat)
  | proxy (i : Nat) (target : Nat)
deriving DecidableEq

/-- What the handlers of a proxy keep. -/
inductive Changes (P : Type) where
  | object (newData : OrderedMap Key (Value Ref P)) (deletedProperties : List Key)
  | array (newData : Option (ArrayData Ref P))

structure Proxy (P : Type) where
  data : Nat
  changes : Changes P

structure World (P : Type) where
  nodes : List (Node Ref P)
  proxies : List (Proxy P)

namespace World

def newObject (w : World P) (x : Node Ref P) : Ref × World P :=
  (.raw w.nodes.length, { w with nodes := w.nodes ++ [x] })

def newProxy (w : World P) (n : Nat) (changes : Changes P) : Ref × World P :=
  (.proxy w.proxies.length n,
    { w with proxies := w.proxies ++ [⟨n, changes⟩] })

/-- `augment(value)` of an object.  What is a proxy is one of
    `augmentedObjects`. -/
def augment (w : World P) : Ref → Ref × World P
  | .proxy i target => (.proxy i target, w)
  | .raw n =>
    match w.nodes[n]? with
    | some (.regexp _) => (.raw n, w)
    | some (.date json) => w.newObject (.date json)
    | some (.bytes content) => w.newObject (.bytes content)
    | some (.array _) => w.newProxy n (.array none)
    | some (.object _) => w.newProxy n (.object .empty [])
    | none => (.raw n, w)

def augmentValue (w : World P) : Value Ref P → Value Ref P × World P
  | .prim p => (.prim p, w)
  | .ref r => ((.ref (w.augment r).1), (w.augment r).2)

def setNode (w : World P) (n : Nat) (x : Node Ref P) : World P :=
  { w with nodes := w.nodes.set n x }

def setChanges (w : World P) (i : Nat) (changes : Changes P) : World P :=
  { w with
    proxies := w.proxies.modify i fun proxy => { proxy with changes } }

/-- `value.toString()` of a regular expression, `value.toJSON()` of a date.
    No other value has a method `toJSON` here. -/
def text? (w : World P) : Ref → Option (Primitive P)
  | .proxy _ _ => none
  | .raw n =>
    match w.nodes[n]? with
    | some (.regexp text) => some text
    | some (.date json) => some json
    | _ => none

end World

/-! ## The handlers of `augmentObject` -/

section

variable (target : Node Ref P) (newData : OrderedMap Key (Value Ref P))
  (deletedProperties : List Key)

/-- `hasOwnProperty.call(newData, key) ? newData : data` -/
def holder (k : Key) : Node Ref P :=
  if newData.has k then .object newData else target

def getObject (w : World P) (i : Nat) (k : Key) : Lookup Ref P × World P :=
  if k.1 = "constructor" then (.method false, w)
  else if k ∈ deletedProperties then (.value (.prim .undefined), w)
  else
    match newData.get? k with
    | some v => (.value v, w)
    | none =>
      match target.get k with
      | .value (.ref r) =>
        match w.text? r with
        | some text => (.value (.prim text), w)
        | none =>
          let (r', w) := w.augment r
          if r' ≠ r then
            (.value (.ref r'), w.setChanges i (.object (newData.set k (.ref r')) deletedProperties))
          else (.value (.ref r), w)
      | lookup => (lookup, w)

def deleteObject (k : Key) : Changes P :=
  .object (newData.delete k)
    (if (target.own? k).isSome then deletedProperties.insert k
      else deletedProperties)

def setObject (k : Key) (v : Value Ref P) : Changes P :=
  if v.isUndefined then
    .object (newData.delete k)
      (if target.has k then deletedProperties.insert k else deletedProperties)
  else .object (newData.set k v) (deletedProperties.filter (· ≠ k))

def hasObject (k : Key) : Bool :=
  if k ∈ deletedProperties then false else (holder target newData k).has k

def ownKeysObject : List String :=
  (target.keys ++ (newData.keys.map Subtype.val).filter fun k => k ∉ target.keys).filter
    fun k => k ∉ deletedProperties.map Subtype.val

def descriptorObject (k : Key) : Option (Value Ref P) :=
  if k ∈ deletedProperties then none else (holder target newData k).own? k

end

/-! ## The handlers of `augmentArray` -/

section

variable (data : ArrayData Ref P) (newData : Option (ArrayData Ref P))

/-- `getData()` -/
def getData : ArrayData Ref P := newData.getD data.spread

variable (toLength : P → Option Nat)

def getArray (w : World P) (i : Nat) (k : Key) : Lookup Ref P × World P :=
  if k.1 = "constructor" then (.method true, w)
  else
    match (Node.array (newData.getD data)).get k with
    | .value (.ref r) =>
      let (r', w) := w.augment r
      if r' ≠ r then
        let written := (getData data newData).put toLength k (.ref r')
        (.value (.ref r'), w.setChanges i (.array (some (written.getD (getData data newData)))))
      else (.value (.ref r), w)
    | lookup => (lookup, w)

def deleteArray (k : Key) : Bool × Changes P :=
  let (deleted, a) := (getData data newData).remove k
  (deleted, .array (some a))

/-- The value set is augmented; where setting it throws, the copy has been
    made. -/
def setArray (w : World P) (i : Nat) (k : Key) (v : Value Ref P) : Bool × World P :=
  let (v, w) := w.augmentValue v
  match (getData data newData).put toLength k v with
  | some a => (true, w.setChanges i (.array (some a)))
  | none => (false, w.setChanges i (.array (some (getData data newData))))

/-- `?? defaultPropertyDescriptor`, a descriptor without a value. -/
def descriptorArray (k : Key) : Option (Value Ref P) :=
  match newData with
  | none => data.own? k
  | some a =>
    if k.1 = "length" then a.own? k
    else some ((data.own? k).getD (.prim .undefined))

end

/-! ## What a client can ask for -/

namespace World

variable (toLength : P → Option Nat)

/-- The data of a source, none of it augmented. -/
def add (w : World P) (d : Source P) : World P :=
  { w with
    nodes := w.nodes ++
      d.nodes.map (Node.map fun m => .raw (m + w.nodes.length)) }

/-- What the handlers of the proxy have to work with. -/
def handlers (w : World P) (i target : Nat) : Option (Changes P × Node Ref P) :=
  w.proxies[i]?.bind fun proxy =>
    w.nodes[target]?.map fun x => (proxy.changes, x)

def get (w : World P) (r : Ref) (k : Key) : Lookup Ref P × World P :=
  match r with
  | .raw n =>
    match w.nodes[n]? with
    | some x => (x.get k, w)
    | none => (.value (.prim .undefined), w)
  | .proxy i target =>
    match w.handlers i target with
    | some (.object newData deleted, x) => getObject x newData deleted w i k
    | some (.array newData, .array data) => getArray data newData toLength w i k
    | _ => (.value (.prim .undefined), w)

def set (w : World P) (r : Ref) (k : Key) (v : Value Ref P) : Bool × World P :=
  match r with
  | .raw n =>
    match w.nodes[n]?.bind fun x => x.put toLength k v with
    | some x => (true, w.setNode n x)
    | none => (false, w)
  | .proxy i target =>
    match w.handlers i target with
    | some (.object newData deleted, x) =>
      (true, w.setChanges i (setObject x newData deleted k v))
    | some (.array newData, .array data) => setArray data newData toLength w i k v
    | _ => (false, w)

def deleteProperty (w : World P) (r : Ref) (k : Key) : Bool × World P :=
  match r with
  | .raw n =>
    match w.nodes[n]? with
    | some x => ((x.remove k).1, w.setNode n (x.remove k).2)
    | none => (true, w)
  | .proxy i target =>
    match w.handlers i target with
    | some (.object newData deleted, x) =>
      (true, w.setChanges i (deleteObject x newData deleted k))
    | some (.array newData, .array data) =>
      ((deleteArray data newData k).1, w.setChanges i (deleteArray data newData k).2)
    | _ => (true, w)

def has (w : World P) (r : Ref) (k : Key) : Bool :=
  match r with
  | .raw n => (w.nodes[n]?.map fun x => x.has k).getD false
  | .proxy i target =>
    match w.handlers i target with
    | some (.object newData deleted, x) => hasObject x newData deleted k
    | some (.array newData, .array data) => (Node.array (newData.getD data)).has k
    | _ => false

def ownKeys (w : World P) (r : Ref) : List String :=
  match r with
  | .raw n => (w.nodes[n]?.map Node.keys).getD []
  | .proxy i target =>
    match w.handlers i target with
    | some (.object newData deleted, x) => ownKeysObject x newData deleted
    | some (.array newData, .array data) => (Node.array (newData.getD data)).keys
    | _ => []

def getOwnPropertyDescriptor (w : World P) (r : Ref) (k : Key) : Option (Value Ref P) :=
  match r with
  | .raw n => w.nodes[n]?.bind fun x => x.own? k
  | .proxy i target =>
    match w.handlers i target with
    | some (.object newData deleted, x) => descriptorObject x newData deleted k
    | some (.array newData, .array data) => descriptorArray data newData k
    | _ => none

def respond (w : World P) : Request Ref P → Reply Ref P × World P
  | .get r k => ((.lookup (w.get toLength r k).1), (w.get toLength r k).2)
  | .set r k v => (.flag (w.set toLength r k v).1, (w.set toLength r k v).2)
  | .setNew r k d =>
    let root : Ref := .raw (d.root + w.nodes.length)
    (.flag ((w.add d).set toLength r k (.ref root)).1, ((w.add d).set toLength r k (.ref root)).2)
  | .deleteProperty r k => (.flag (w.deleteProperty r k).1, (w.deleteProperty r k).2)
  | .has r k => (.flag (w.has r k), w)
  | .ownKeys r => (.keys (w.ownKeys r), w)
  | .getOwnPropertyDescriptor r k => (.descriptor (w.getOwnPropertyDescriptor r k), w)

end World

/-- The data of a source, and what `augmentObject` or `augmentArray` makes of
    its root. -/
def augmentSource (d : Source P) : Ref × World P := (World.add ⟨[], []⟩ d).augment (.raw d.root)

/-! ## A copy of one's own -/

/-- An object of the copy.  The data of the source is marked, and what is
    put into a marked array. -/
structure Cell (P : Type) where
  node : Node Nat P
  augmented : Bool

/-- The objects of a copy.  Of a marked object, setting a member to
    `undefined` deletes it. -/
abbrev Copy (P : Type) := List (Cell P)

namespace Copy

variable (toLength : P → Option Nat)

def add (c : Copy P) (d : Source P) (augmented : Bool) : Copy P :=
  c ++ d.nodes.map fun x => ⟨x.map (· + c.length), augmented⟩

def setNode (c : Copy P) (n : Nat) (x : Node Nat P) : Copy P :=
  List.modify c n fun cell => { cell with node := x }

def deletes (cell : Cell P) (v : Value Nat P) : Bool :=
  cell.augmented && !cell.node.isArray && v.isUndefined

def get (c : Copy P) (n : Nat) (k : Key) : Lookup Nat P :=
  match (c)[n]? with
  | some cell => cell.node.get k
  | none => .value (.prim .undefined)

def deleteProperty (c : Copy P) (n : Nat) (k : Key) : Bool × Copy P :=
  match (c)[n]? with
  | some cell => ((cell.node.remove k).1, c.setNode n (cell.node.remove k).2)
  | none => (true, c)

def set (c : Copy P) (n : Nat) (k : Key) (v : Value Nat P) : Bool × Copy P :=
  match (c)[n]? with
  | some cell =>
    if deletes cell v then c.deleteProperty n k
    else
      match cell.node.put toLength k v with
      | some x => (true, c.setNode n x)
      | none => (false, c)
  | none => (false, c)

/-- What is put into the object belongs to the augmented data. -/
def marks (c : Copy P) (n : Nat) : Bool :=
  ((c)[n]?.map fun cell => cell.augmented && cell.node.isArray).getD false

def respond (c : Copy P) : Request Nat P → Reply Nat P × Copy P
  | .get n k => (.lookup (c.get n k), c)
  | .set n k v => (.flag (c.set toLength n k v).1, (c.set toLength n k v).2)
  | .setNew n k d =>
    let added := c.add d (c.marks n)
    let root := d.root + c.length
    (.flag (added.set toLength n k (.ref root)).1, (added.set toLength n k (.ref root)).2)
  | .deleteProperty n k => (.flag (c.deleteProperty n k).1, (c.deleteProperty n k).2)
  | .has n k => (.flag (((c)[n]?.map fun cell => cell.node.has k).getD false), c)
  | .ownKeys n => (.keys (((c)[n]?.map fun cell => cell.node.keys).getD []), c)
  | .getOwnPropertyDescriptor n k =>
    (.descriptor ((c)[n]?.bind fun cell => cell.node.own? k), c)

/-- What is assigned under a name of an array is its length. -/
def KeepsLength (node : Node Nat P) (k : Key) : Prop := node.isArray = true → k.1 ≠ "length"

/-- The requests for which an augmented object passes for a copy. -/
def Allows (c : Copy P) : Request Nat P → Prop
  | .set n k v => ∀ cell, (c)[n]? = some cell → (∀ m, v = .ref m → KeepsLength cell.node k) ∧
      (cell.augmented = true → k.1 ≠ "constructor" ∧
        (cell.node.isArray = false → v.isUndefined = true →
          k.1 ∉ N8nDirectedGraph.objectPrototype) ∧
        (cell.node.isArray = true → ∀ m, v = .ref m →
          ∀ other, (c)[m]? = some other → other.augmented = true))
  | .setNew n k _ => ∀ cell, (c)[n]? = some cell → KeepsLength cell.node k ∧
      (cell.augmented = true → k.1 ≠ "constructor")
  | .deleteProperty n k => ∀ cell, (c)[n]? = some cell →
      cell.augmented = true → cell.node.isArray = false → k.1 ∉ N8nDirectedGraph.objectPrototype
  | .getOwnPropertyDescriptor n _ => ∀ cell, (c)[n]? = some cell →
      cell.augmented = true → cell.node.isArray = false
  | .get _ _ | .has _ _ | .ownKeys _ => True

def flag (c : Copy P) (n : Nat) : Option Bool := (c)[n]?.map Cell.augmented

end Copy

/-! ## What the proxies and the copy have in common -/

/-- The object a reference stands for. -/
def object : Ref → Nat
  | .raw n => n
  | .proxy _ target => target

def World.targetOf (w : World P) (i : Nat) : Option Nat := w.proxies[i]?.map Proxy.data

/-- What a client may hold: a proxy, or an object that is no augmented
    data. -/
def Visible (w : World P) (c : Copy P) : Ref → Prop
  | .raw n => c.flag n = some false
  | .proxy i target => w.targetOf i = some target

/-- The member a proxy has of its own, before it is augmented. -/
def Changes.own? (x : Node Ref P) : Changes P → Key → Option (Value Ref P)
  | .object newData deleted, k =>
    if k ∈ deleted then none else (newData.get? k).or (x.own? k)
  | .array (some a), k => a.own? k
  | .array none, k => x.own? k

/-- The changes of a new proxy. -/
def fresh : Node Ref P → Changes P
  | .array _ => .array none
  | _ => .object .empty []

/-- The changes of a proxy of `x` make of it the object of the copy. -/
inductive Tracks (w : World P) (c : Copy P) (x : Node Ref P) :
    Changes P → Node Nat P → Prop where
  | object {newData : OrderedMap Key (Value Ref P)} {deleted : List Key}
      {members : OrderedMap Key (Value Nat P)}
      (hkind : x.isArray = false)
      (hown : ∀ k, ((Changes.object newData deleted).own? x k).map
        (Value.map object) = members.get? k)
      (hplain : Plain (.object members))
      (hdeleted : ∀ k ∈ deleted, k.1 ∉ N8nDirectedGraph.objectPrototype)
      (hnew : ∀ k r, newData.get? k = some (.ref r) → Visible w c r) :
      Tracks w c x (.object newData deleted) (.object members)
  | array {newData : Option (ArrayData Ref P)} {data : ArrayData Ref P} (hkind : x = .array data)
      (hplain : ∀ k, k.1 = "constructor" → (newData.getD data).own? k = none)
      (hrefs : ∀ k r, (newData.getD data).own? k = some (.ref r) →
        (∃ i target, r = .proxy i target ∧ w.targetOf i = some target) ∨ x.own? k = some (.ref r)) :
      Tracks w c x (.array newData) (.array ((newData.getD data).map object))

/-- The world of the proxies and the copy.  The data of the source are as they
    were; an object of it has one proxy at most, made where it was found. -/
structure Sim (d : Source P) (w : World P) (c : Copy P) : Prop where
  length : w.nodes.length = c.length
  source {n : Nat} {x : Node Nat P} : d.nodes[n]? = some x →
    w.nodes[n]? = some (x.map .raw) ∧ c.flag n = some true
  plain {n : Nat} {x : Node Ref P} {node : Node Nat P} :
    w.nodes[n]? = some x → (c)[n]? = some ⟨node, false⟩ →
      node = x.map object ∧ ∀ k r, x.own? k = some (.ref r) → Visible w c r
  data {n : Nat} {x : Node Ref P} : w.nodes[n]? = some x →
    c.flag n = some true → Plain x ∧ ∀ k r, x.own? k = some (.ref r) →
      ∃ m, r = .raw m ∧ c.flag m = some true
  single {m n s : Nat} {x y : Node Ref P} {k l : Key} :
    w.nodes[m]? = some x → w.nodes[n]? = some y → c.flag m = some true →
      c.flag n = some true → x.own? k = some (.ref (.raw s)) →
        y.own? l = some (.ref (.raw s)) → m = n ∧ k = l
  unread {n : Nat} {x : Node Ref P} {node : Node Nat P} :
    w.nodes[n]? = some x → (c)[n]? = some ⟨node, true⟩ →
      (∀ i, w.targetOf i ≠ some n) → node = x.map object
  tracks {i n : Nat} {changes : Changes P} :
    w.proxies[i]? = some ⟨n, changes⟩ → ∃ x node, w.nodes[n]? = some x ∧
      (c)[n]? = some ⟨node, true⟩ ∧ Tracks w c x changes node
  distinct {i j n : Nat} : w.targetOf i = some n → w.targetOf j = some n → i = j
  parent {n m j : Nat} {x : Node Ref P} {k : Key} : w.nodes[n]? = some x →
    c.flag n = some true → x.own? k = some (.ref (.raw m)) →
      w.targetOf j = some m → ∃ (i : Nat) (changes : Changes P),
        w.proxies[i]? = some ⟨n, changes⟩ ∧ changes.own? x k ≠ some (.ref (.raw m))

section

variable {d : Source P} {w w' : World P} {c c' : Copy P}

variable {r : Ref}

theorem Visible.mono (h : Visible w c r)
    (htargets : ∀ i n, w.targetOf i = some n → w'.targetOf i = some n)
    (hflags : ∀ n b, c.flag n = some b → c'.flag n = some b) :
    Visible w' c' r := by
  cases r with
  | raw n => exact hflags n false h
  | proxy i target => exact htargets i target h

variable {changes : Changes P} {node : Node Nat P} {x : Node Ref P}

theorem Tracks.mono (h : Tracks w c x changes node)
    (htargets : ∀ i n, w.targetOf i = some n → w'.targetOf i = some n)
    (hflags : ∀ n b, c.flag n = some b → c'.flag n = some b) :
    Tracks w' c' x changes node := by
  cases h with
  | object hkind hown hplain hdeleted hnew =>
    exact .object hkind hown hplain hdeleted fun k r hr => (hnew k r hr).mono htargets hflags
  | array hkind hplain hrefs =>
    refine .array hkind hplain fun k r hr => ?_
    rcases hrefs k r hr with ⟨i, n, heq, htarget⟩ | hown
    · exact .inl ⟨i, n, heq, htargets i n htarget⟩
    · exact .inr hown

variable {b : Bool} {n : Nat}

theorem flag_of_cell (h : (c)[n]? = some ⟨node, b⟩) : c.flag n = some b := by
  rw [Copy.flag, h]
  rfl

variable {i : Nat}

theorem targetOf_of_proxy (h : w.proxies[i]? = some ⟨n, changes⟩) : w.targetOf i = some n := by
  rw [World.targetOf, h]
  rfl

theorem Sim.flag_target (h : Sim d w c)
    (htarget : w.targetOf i = some n) : c.flag n = some true := by
  obtain ⟨⟨n', changes⟩, hproxy, rfl⟩ := Option.map_eq_some_iff.mp htarget
  obtain ⟨x, node, -, hcell, -⟩ := h.tracks hproxy
  exact flag_of_cell hcell

theorem Sim.injective (h : Sim d w c) {r' : Ref} (hr : Visible w c r)
    (hr' : Visible w c r') (heq : object r' = object r) : r' = r := by
  cases r with
  | raw n =>
    cases r' with
    | raw n' => exact congrArg Ref.raw heq
    | proxy i' target' =>
      cases heq
      cases (Sim.flag_target h hr').symm.trans hr
  | proxy i target =>
    cases r' with
    | raw n' =>
      cases heq
      cases (Sim.flag_target h hr).symm.trans hr'
    | proxy i' target' =>
      cases heq
      rw [h.distinct hr' hr]

theorem cell_setNode (c : Copy P) (t : Nat) (node : Node Nat P) (n : Nat) :
    (c.setNode t node)[n]? = ((c)[n]?).map fun cell =>
      if t = n then { cell with node } else cell :=
  getElem?_modify ..

theorem flag_setNode (c : Copy P) (t : Nat) (node : Node Nat P) (n : Nat) :
    (c.setNode t node).flag n = c.flag n := by
  rw [Copy.flag, cell_setNode, Option.map_map, Copy.flag]
  refine congrFun (congrArg Option.map (funext fun cell => ?_)) _
  show (if t = n then _ else _ : Cell P).augmented = _
  split <;> rfl

variable {t : Nat}

theorem cell_setNode_ne (h : t ≠ n) : (c.setNode t node)[n]? = (c)[n]? := by
  rw [cell_setNode]
  simp [if_neg h]

theorem cell_setNode_self {node' : Node Nat P} (h : (c)[t]? = some ⟨node', b⟩) :
    (c.setNode t node)[t]? = some ⟨node, b⟩ := by
  rw [cell_setNode, h]
  simp

/-- A proxy that comes in addition: of an object that has none, and that
    nothing but the changed member leads to. -/
structure Added (w : World P) (c : Copy P) (t : Nat) (x : Node Ref P)
    (changes : Changes P) (proxy : Proxy P) : Prop where
  flag : c.flag proxy.data = some true
  node : ∃ y, w.nodes[proxy.data]? = some y ∧ proxy.changes = fresh y
  free : ∀ j, w.targetOf j ≠ some proxy.data
  parent {n : Nat} {y : Node Ref P} {k : Key} : w.nodes[n]? = some y →
    c.flag n = some true → y.own? k = some (.ref (.raw proxy.data)) →
      n = t ∧ changes.own? x k ≠ some (.ref (.raw proxy.data))

variable {k : Key}

theorem slot_constructor (h : k.1 = "constructor") : k.slot = .named := by
  have hnone : arrayIndex? "constructor" = none := by decide
  rw [Key.slot, if_neg (by rw [h]; decide)]
  split
  · next hi =>
      rw [h, hnone] at hi
      cases hi
  · rfl

theorem tracks_fresh (h : Plain x) : Tracks w c x (fresh x) (x.map object) := by
  cases x with
  | object members =>
    refine .object rfl ?_ (plain_map object h) nofun nofun
    intro k
    rw [get?_map, Changes.own?, if_neg not_mem_nil]
    rfl
  | array data =>
    refine .array rfl ?_ fun k r hr => .inr hr
    intro k hk
    have hnone : data.spread.own? k = none := by
      rw [ArrayData.own?, slot_constructor hk]
      rfl
    rwa [show data.spread = data from h] at hnone
  | date | regexp | bytes => exact h.elim

/-- A step of the world and of the copy after which a client may hold what it
    held before. -/
structure Next (d : Source P) (w w' : World P) (c c' : Copy P) : Prop where
  sim : Sim d w' c'
  visible {r : Ref} : Visible w c r → Visible w' c' r

variable {changes' : Changes P}

/-- **ONE PROXY CHANGES**: its changes and the object of the copy stay
    together, and one more object may get a proxy. -/
theorem Sim.change (h : Sim d w c) (hproxy : w.proxies[i]? = some ⟨t, changes⟩)
    (hx : w.nodes[t]? = some x) (hnodes : w'.nodes = w.nodes)
    (hchanged : w'.proxies[i]? = some ⟨t, changes'⟩)
    (hothers : ∀ j, j ≠ i → j ≠ w.proxies.length → w'.proxies[j]? = w.proxies[j]?)
    (hadded : ∀ proxy, w'.proxies[w.proxies.length]? = some proxy → Added w c t x changes' proxy)
    (htracks : Tracks w' c x changes' node)
    (hkeep : ∀ k m, changes'.own? x k = some (.ref (.raw m)) →
      x.own? k = some (.ref (.raw m)) → changes.own? x k = some (.ref (.raw m))) :
    Next d w w' c (c.setNode t node) := by
  have hti : w.targetOf i = some t := targetOf_of_proxy hproxy
  have hti' : w'.targetOf i = some t := targetOf_of_proxy hchanged
  have htargets : ∀ j n, w.targetOf j = some n → w'.targetOf j = some n := by
    intro j n hj
    by_cases hji : j = i
    · subst hji
      exact hti'.trans (hti.symm.trans hj)
    · obtain ⟨proxy, hp, rfl⟩ := Option.map_eq_some_iff.mp hj
      have hjl : j ≠ w.proxies.length := ((List.getElem?_eq_some_iff.mp hp).1).ne
      rw [World.targetOf, hothers j hji hjl, hp]
      rfl
  have hback : ∀ j n, w'.targetOf j = some n → w.targetOf j = some n ∨
      j = w.proxies.length ∧ ∃ proxy, proxy.data = n ∧ Added w c t x changes' proxy := by
    intro j n hj
    by_cases hji : j = i
    · subst hji
      exact .inl (hti.trans (hti'.symm.trans hj))
    · by_cases hjl : j = w.proxies.length
      · subst hjl
        obtain ⟨proxy, hp, rfl⟩ := Option.map_eq_some_iff.mp hj
        exact .inr ⟨rfl, proxy, rfl, hadded proxy hp⟩
      · refine .inl ?_
        rwa [World.targetOf, hothers j hji hjl] at hj
  have hflags : ∀ n b, c.flag n = some b → (c.setNode t node).flag n = some b :=
    fun n b hb => (flag_setNode ..).trans hb
  have hcell : ∃ node', (c)[t]? = some ⟨node', true⟩ := by
    obtain ⟨x', node', -, hcell, -⟩ := h.tracks hproxy
    exact ⟨node', hcell⟩
  obtain ⟨node', hcell⟩ := hcell
  refine ⟨?_, fun hr => hr.mono htargets hflags⟩
  constructor
  case length => rw [hnodes, h.length, Copy.setNode, length_modify]
  case source =>
    intro n y hy
    rw [hnodes, flag_setNode]
    exact h.source hy
  case plain =>
    intro n y z hy hz
    have hne : t ≠ n := by
      rintro rfl
      rw [cell_setNode_self hcell] at hz
      cases hz
    rw [hnodes] at hy
    rw [cell_setNode_ne hne] at hz
    obtain ⟨heq, hvisible⟩ := h.plain hy hz
    exact ⟨heq, fun k r hr => (hvisible k r hr).mono htargets hflags⟩
  case data =>
    intro n y hy hn
    rw [hnodes] at hy
    rw [flag_setNode] at hn
    obtain ⟨hplain, hrefs⟩ := h.data hy hn
    refine ⟨hplain, fun k r hr => ?_⟩
    obtain ⟨m, rfl, hm⟩ := hrefs k r hr
    exact ⟨m, rfl, hflags m true hm⟩
  case single =>
    intro m n s y z k l hy hz hm hn
    rw [hnodes] at hy hz
    rw [flag_setNode] at hm hn
    exact h.single hy hz hm hn
  case unread =>
    intro n y z hy hz hfree
    have hne : t ≠ n := by
      rintro rfl
      exact hfree i hti'
    rw [hnodes] at hy
    rw [cell_setNode_ne hne] at hz
    exact h.unread hy hz fun j hj => hfree j (htargets j n hj)
  case tracks =>
    intro j n ch hj
    by_cases hji : j = i
    · subst hji
      cases hchanged.symm.trans hj
      exact ⟨x, node, hnodes ▸ hx, cell_setNode_self hcell, htracks.mono (fun _ _ => id) hflags⟩
    · by_cases hjl : j = w.proxies.length
      · subst hjl
        have hnew := hadded _ hj
        obtain ⟨y, hy, heq⟩ := hnew.node
        obtain ⟨⟨z, _⟩, hz, rfl⟩ := Option.map_eq_some_iff.mp hnew.flag
        have hne : t ≠ n := by
          rintro rfl
          exact hnew.free i hti
        cases heq
        refine ⟨y, z, hnodes ▸ hy, (cell_setNode_ne hne).trans hz, ?_⟩
        rw [h.unread hy hz hnew.free]
        exact tracks_fresh (h.data hy hnew.flag).1
      · rw [hothers j hji hjl] at hj
        obtain ⟨y, z, hy, hz, htr⟩ := h.tracks hj
        have hne : t ≠ n := by
          rintro rfl
          exact hji (h.distinct (targetOf_of_proxy hj) hti)
        exact ⟨y, z, hnodes ▸ hy, (cell_setNode_ne hne).trans hz, htr.mono htargets hflags⟩
  case distinct =>
    intro j l n hj hl
    rcases hback j n hj with hj | ⟨rfl, proxy, rfl, hnew⟩
    · rcases hback l n hl with hl | ⟨rfl, proxy, rfl, hnew⟩
      · exact h.distinct hj hl
      · exact absurd hj (hnew.free j)
    · rcases hback l _ hl with hl | ⟨rfl, -⟩
      · exact absurd hl (hnew.free l)
      · rfl
  case parent =>
    intro n m j y k hy hn hown hj
    rw [hnodes] at hy
    rw [flag_setNode] at hn
    rcases hback j m hj with hj | ⟨rfl, proxy, rfl, hnew⟩
    · obtain ⟨l, ch, hl, hch⟩ := h.parent hy hn hown hj
      by_cases hli : l = i
      · subst hli
        cases hproxy.symm.trans hl
        cases hx.symm.trans hy
        exact ⟨l, changes', hchanged, fun heq => hch (hkeep k m heq hown)⟩
      · have hll : l ≠ w.proxies.length :=
          ((List.getElem?_eq_some_iff.mp hl).1).ne
        exact ⟨l, ch, (hothers l hli hll).trans hl, hch⟩
    · obtain ⟨rfl, hne⟩ := hnew.parent hy hn hown
      cases hx.symm.trans hy
      exact ⟨i, changes', hchanged, hne⟩

theorem getElem?_setNode {x' : Node Ref P} (m : Nat) : (w.setNode n x').nodes[m]?
      = if n = m then (w.nodes[m]?).map fun _ => x' else w.nodes[m]? := by
  show (w.nodes.set n x')[m]? = _
  rw [getElem?_set']
  rfl

/-- **AN OBJECT CHANGES** that is no augmented data. -/
theorem Sim.setNode (h : Sim d w c) {x' : Node Ref P} (hx : w.nodes[n]? = some x)
    (hn : c.flag n = some false) (hrefs : ∀ k r, x'.own? k = some (.ref r) → Visible w c r) :
    Next d w (w.setNode n x') c (c.setNode n (x'.map object)) := by
  have hmono : ∀ {r : Ref}, Visible w c r →
      Visible (w.setNode n x') (c.setNode n (x'.map object)) r :=
    fun hr => hr.mono (fun _ _ => id) fun m b hb => (flag_setNode ..).trans hb
  have hold : ∀ {m : Nat} {y : Node Ref P}, c.flag m = some true →
      (w.setNode n x').nodes[m]? = some y → w.nodes[m]? = some y := by
    intro m y hm hy
    have hne : n ≠ m := by
      rintro rfl
      cases hn.symm.trans hm
    rwa [getElem?_setNode, if_neg hne] at hy
  refine ⟨?_, hmono⟩
  constructor
  case length =>
    rw [Copy.setNode, length_modify, ← h.length]
    exact length_set
  case source =>
    intro m y hy
    obtain ⟨hm, hflag⟩ := h.source hy
    have hne : n ≠ m := by
      rintro rfl
      cases hn.symm.trans hflag
    rw [getElem?_setNode, if_neg hne, flag_setNode]
    exact ⟨hm, hflag⟩
  case plain =>
    intro m y z hy hz
    by_cases hnm : n = m
    · subst hnm
      rw [getElem?_setNode, if_pos rfl, hx] at hy
      cases hy
      obtain ⟨⟨node, b⟩, hcell, hb⟩ := Option.map_eq_some_iff.mp hn
      cases hb
      rw [cell_setNode_self hcell] at hz
      cases hz
      exact ⟨rfl, fun k r hr => hmono (hrefs k r hr)⟩
    · rw [getElem?_setNode, if_neg hnm] at hy
      rw [cell_setNode_ne hnm] at hz
      obtain ⟨heq, hvisible⟩ := h.plain hy hz
      exact ⟨heq, fun k r hr => hmono (hvisible k r hr)⟩
  case data =>
    intro m y hy hm
    rw [flag_setNode] at hm
    obtain ⟨hplain, hdata⟩ := h.data (hold hm hy) hm
    refine ⟨hplain, fun k r hr => ?_⟩
    obtain ⟨s, rfl, hs⟩ := hdata k r hr
    exact ⟨s, rfl, (flag_setNode ..).trans hs⟩
  case single =>
    intro m m' s y z k l hy hz hm hm'
    rw [flag_setNode] at hm hm'
    exact h.single (hold hm hy) (hold hm' hz) hm hm'
  case unread =>
    intro m y z hy hz hfree
    have hm := (flag_setNode ..).symm.trans (flag_of_cell hz)
    have hne : n ≠ m := by
      rintro rfl
      cases hn.symm.trans hm
    rw [cell_setNode_ne hne] at hz
    exact h.unread (hold hm hy) hz hfree
  case tracks =>
    intro i m changes hi
    obtain ⟨y, z, hy, hz, htracks⟩ := h.tracks hi
    have hne : n ≠ m := by
      rintro rfl
      cases hn.symm.trans (flag_of_cell hz)
    refine ⟨y, z, ?_, (cell_setNode_ne hne).trans hz, htracks.mono
      (fun _ _ => id) fun m b hb => (flag_setNode ..).trans hb⟩
    rwa [getElem?_setNode, if_neg hne]
  case distinct => exact h.distinct
  case parent =>
    intro m s j y k hy hm
    rw [flag_setNode] at hm
    exact h.parent (hold hm hy) hm

/-! ### New objects -/

variable {e : Source P}

theorem node_add (h : (w.add e).nodes[n]? = some x) : w.nodes[n]? = some x ∨
      ∃ m y, n = m + w.nodes.length ∧ e.nodes[m]? = some y ∧
        x = y.map fun s => .raw (s + w.nodes.length) := by
  rw [World.add, getElem?_append] at h
  split at h
  · exact .inl h
  · next hn =>
      rw [getElem?_map] at h
      obtain ⟨y, hy, rfl⟩ := Option.map_eq_some_iff.mp h
      exact .inr ⟨n - w.nodes.length, y, by omega, hy, rfl⟩

theorem cell_add {cell : Cell P} (h : (c.add e b)[n]? = some cell) : (c)[n]? = some cell ∨
      ∃ m y, n = m + c.length ∧ e.nodes[m]? = some y ∧ cell = ⟨y.map (· + c.length), b⟩ := by
  rw [Copy.add, getElem?_append] at h
  split at h
  · exact .inl h
  · next hn =>
      rw [getElem?_map] at h
      obtain ⟨y, hy, rfl⟩ := Option.map_eq_some_iff.mp h
      exact .inr ⟨n - c.length, y, by omega, hy, rfl⟩

theorem lt_of_flag (h : c.flag n = some b) : n < c.length := by
  obtain ⟨cell, hcell, -⟩ := Option.map_eq_some_iff.mp h
  exact (List.getElem?_eq_some_iff.mp hcell).1

theorem flag_add_left (e : Source P) {b' : Bool}
    (h : c.flag n = some b') : (c.add e b).flag n = some b' := by
  rw [Copy.flag, Copy.add, getElem?_append_left (lt_of_flag h)]
  exact h

variable {m : Nat}

theorem flag_add_right (b : Bool)
    (h : m < e.nodes.length) : (c.add e b).flag (m + c.length) = some b := by
  rw [Copy.flag, Copy.add, getElem?_append_right (by omega),
    Nat.add_sub_cancel, getElem?_map, getElem?_eq_getElem h]
  rfl

theorem own?_added {y : Node Nat P} (hy : e.nodes[m]? = some y)
    (h : (y.map fun s => Ref.raw (s + n)).own? k = some (.ref r)) :
    ∃ s, r = .raw (s + n) ∧ s < e.nodes.length ∧ y.own? k = some (.ref s) := by
  rw [Node.own?_map] at h
  obtain ⟨v, hv, heq⟩ := Option.map_eq_some_iff.mp h
  cases v with
  | prim p => cases heq
  | ref s =>
    cases heq
    exact ⟨s, rfl, e.closed y (mem_of_getElem? hy) k s hv, hv⟩

theorem Sim.lt_of_own (h : Sim d w c) {s : Nat} (hx : w.nodes[n]? = some x)
    (hn : c.flag n = some true) (hown : x.own? k = some (.ref (.raw s))) : s < c.length := by
  obtain ⟨m, heq, hm⟩ := (h.data hx hn).2 k _ hown
  cases heq
  exact lt_of_flag hm

/-- **NEW OBJECTS** lead to one another only. -/
theorem Sim.add (h : Sim d w c) (e : Source P) (b : Bool) : Next d w (w.add e) c (c.add e b) := by
  have hlength := h.length
  have hmono : ∀ {r : Ref}, Visible w c r → Visible (w.add e) (c.add e b) r :=
    fun hr => hr.mono (fun _ _ => id) fun m b hb => flag_add_left e hb
  have hold : ∀ {n : Nat} {x : Node Ref P}, w.nodes[n]? = some x → n < c.length := fun hx =>
    hlength ▸ (List.getElem?_eq_some_iff.mp hx).1
  -- an object is among the old ones on both sides, or on none
  have hflag : ∀ {n : Nat} {x : Node Ref P} {b' : Bool},
      w.nodes[n]? = some x → (c.add e b).flag n = some b' → c.flag n = some b' := by
    intro n x b' hx hn
    rwa [Copy.flag, Copy.add, getElem?_append_left (hold hx)] at hn
  have hcell : ∀ {n : Nat} {x : Node Ref P} {cell : Cell P},
      w.nodes[n]? = some x → (c.add e b)[n]? = some cell → (c)[n]? = some cell := by
    intro n x cell hx hn
    rwa [Copy.add, getElem?_append_left (hold hx)] at hn
  have hnew : ∀ {m : Nat} {y : Node Nat P} {cell : Cell P},
      e.nodes[m]? = some y → (c.add e b)[m + w.nodes.length]? = some cell →
        cell = ⟨(y.map fun s => Ref.raw (s + w.nodes.length)).map object, b⟩ := by
    intro m y cell hy hn
    rw [hlength] at hn ⊢
    rcases cell_add hn with hold | ⟨m', y', hm, hy', rfl⟩
    · have := (List.getElem?_eq_some_iff.mp hold).1
      omega
    · cases Nat.add_right_cancel hm
      cases hy.symm.trans hy'
      rw [Node.map_map]
      rfl
  refine ⟨?_, hmono⟩
  constructor
  case length =>
    show (w.nodes ++ _).length = (c ++ _).length
    rw [length_append, length_append, length_map, length_map, hlength]
  case source =>
    intro n x hx
    obtain ⟨hn, hmark⟩ := h.source hx
    refine ⟨?_, flag_add_left e hmark⟩
    exact (List.getElem?_append_left (List.getElem?_eq_some_iff.mp hn).1).trans hn
  case plain =>
    intro n x node hx hn
    rcases node_add hx with hx | ⟨m, y, rfl, hy, rfl⟩
    · obtain ⟨heq, hvisible⟩ := h.plain hx (hcell hx hn)
      exact ⟨heq, fun k r hr => hmono (hvisible k r hr)⟩
    · obtain ⟨rfl, rfl⟩ := Cell.mk.inj (hnew hy hn)
      refine ⟨rfl, fun k r hr => ?_⟩
      obtain ⟨s, rfl, hs, -⟩ := own?_added hy hr
      rw [hlength]
      exact flag_add_right false hs
  case data =>
    intro n x hx hn
    rcases node_add hx with hx | ⟨m, y, rfl, hy, rfl⟩
    · obtain ⟨hplain, hdata⟩ := h.data hx (hflag hx hn)
      refine ⟨hplain, fun k r hr => ?_⟩
      obtain ⟨s, rfl, hs⟩ := hdata k r hr
      exact ⟨s, rfl, flag_add_left e hs⟩
    · refine ⟨plain_map _ (e.plain y (mem_of_getElem? hy)), fun k r hr => ?_⟩
      obtain ⟨s, rfl, hs, -⟩ := own?_added hy hr
      have hm := (List.getElem?_eq_some_iff.mp hy).1
      rw [hlength] at hn ⊢
      cases (flag_add_right b hm).symm.trans hn
      exact ⟨s + c.length, rfl, flag_add_right true hs⟩
  case single =>
    intro n n' s x x' k l hx hx' hn hn' hk hl
    rcases node_add hx with hx | ⟨m, y, rfl, hy, rfl⟩ <;>
      rcases node_add hx' with hx' | ⟨m', y', rfl, hy', rfl⟩
    · exact h.single hx hx' (hflag hx hn) (hflag hx' hn') hk hl
    · have hs := h.lt_of_own hx (hflag hx hn) hk
      obtain ⟨s', heq, -, -⟩ := own?_added hy' hl
      cases heq
      omega
    · have hs := h.lt_of_own hx' (hflag hx' hn') hl
      obtain ⟨s', heq, -, -⟩ := own?_added hy hk
      cases heq
      omega
    · obtain ⟨s₁, heq₁, -, h₁⟩ := own?_added hy hk
      obtain ⟨s₂, heq₂, -, h₂⟩ := own?_added hy' hl
      cases heq₁
      cases Nat.add_right_cancel (Ref.raw.inj heq₂)
      obtain ⟨rfl, rfl⟩ := e.single m m' y y' k l s₁ hy hy' h₁ h₂
      exact ⟨rfl, rfl⟩
  case unread =>
    intro n x node hx hn hfree
    rcases node_add hx with hx | ⟨m, y, rfl, hy, rfl⟩
    · exact h.unread hx (hcell hx hn) hfree
    · exact (Cell.mk.inj (hnew hy hn)).1
  case tracks =>
    intro i n changes hi
    obtain ⟨x, node, hx, hn, htracks⟩ := h.tracks hi
    refine ⟨x, node, ?_, ?_, htracks.mono (fun _ _ => id) fun m b hb =>
      flag_add_left e hb⟩
    · exact (List.getElem?_append_left (List.getElem?_eq_some_iff.mp hx).1).trans hx
    · exact (getElem?_append_left (hold hx)).trans hn
  case distinct => exact h.distinct
  case parent =>
    intro n m j x k hx hn hown hj
    have hm := lt_of_flag (h.flag_target hj)
    rcases node_add hx with hx | ⟨m', y, rfl, hy, rfl⟩
    · exact h.parent hx (hflag hx hn) hown hj
    · obtain ⟨s, heq, -, -⟩ := own?_added hy hown
      cases heq
      omega

/-! ### Changing a proxy -/

theorem proxies_setChanges (w : World P) (i : Nat) (changes : Changes P)
    (j : Nat) : (w.setChanges i changes).proxies[j]?
      = (w.proxies[j]?).map fun proxy =>
          if i = j then { proxy with changes } else proxy :=
  getElem?_modify ..

theorem proxies_setChanges_ne {j : Nat}
    (h : j ≠ i) : (w.setChanges i changes).proxies[j]? = w.proxies[j]? := by
  rw [proxies_setChanges]
  simp [if_neg (Ne.symm h)]

theorem proxies_setChanges_self (h : w.proxies[i]? = some ⟨t, changes⟩) :
    (w.setChanges i changes').proxies[i]? = some ⟨t, changes'⟩ := by
  rw [proxies_setChanges, h]
  simp

theorem setNode_same (h : (c)[t]? = some ⟨node, b⟩) : c.setNode t node = c := by
  refine ext_getElem? fun n => ?_
  by_cases hn : t = n
  · subst hn
    rw [cell_setNode_self h, h]
  · exact cell_setNode_ne hn

theorem Sim.update (h : Sim d w c) (hproxy : w.proxies[i]? = some ⟨t, changes⟩)
    (hx : w.nodes[t]? = some x) (htracks : Tracks w c x changes' node)
    (hkeep : ∀ k m, changes'.own? x k = some (.ref (.raw m)) →
      x.own? k = some (.ref (.raw m)) → changes.own? x k = some (.ref (.raw m))) :
    Next d w (w.setChanges i changes') c (c.setNode t node) := by
  have hlast : w.proxies[w.proxies.length]? = none := getElem?_eq_none (Nat.le_refl _)
  refine h.change hproxy hx rfl (proxies_setChanges_self hproxy)
    (fun j hj _ => proxies_setChanges_ne hj) ?_ ?_ hkeep
  · intro proxy hp
    rw [proxies_setChanges, hlast] at hp
    cases hp
  · refine htracks.mono (fun j n hj => ?_) fun _ _ => id
    obtain ⟨proxy, hp, rfl⟩ := Option.map_eq_some_iff.mp hj
    rw [World.targetOf, proxies_setChanges, hp]
    by_cases hij : i = j <;> simp [hij]

variable {y : Node Ref P}

theorem Sim.adopt (h : Sim d w c) (changes' : Changes P) (node : Node Nat P)
    (hproxy : w.proxies[i]? = some ⟨t, changes⟩) (hx : w.nodes[t]? = some x)
    (hy : w.nodes[m]? = some y) (hm : c.flag m = some true) (hfree : ∀ j, w.targetOf j ≠ some m)
    (hparent : ∀ {n z k}, w.nodes[n]? = some z → c.flag n = some true →
      z.own? k = some (.ref (.raw m)) → n = t ∧ changes'.own? x k ≠ some (.ref (.raw m)))
    (htracks : ∀ {w'}, (∀ {r}, Visible w c r → Visible w' c r) →
      w'.targetOf w.proxies.length = some m → Tracks w' c x changes' node)
    (hkeep : ∀ k s, changes'.own? x k = some (.ref (.raw s)) →
      x.own? k = some (.ref (.raw s)) → changes.own? x k = some (.ref (.raw s))) :
    Next d w ((w.newProxy m (fresh y)).2.setChanges i changes') c (c.setNode t node) ∧
      ((w.newProxy m (fresh y)).2.setChanges i changes').targetOf w.proxies.length = some m := by
  have hlt := (List.getElem?_eq_some_iff.mp hproxy).1
  have hold : ∀ {j : Nat} {proxy : Proxy P}, w.proxies[j]? = some proxy →
      (w.newProxy m (fresh y)).2.proxies[j]? = some proxy := by
    intro j proxy hj
    exact (List.getElem?_append_left (List.getElem?_eq_some_iff.mp hj).1).trans hj
  have hlast : ((w.newProxy m (fresh y)).2.setChanges i
      changes').proxies[w.proxies.length]? = some ⟨m, fresh y⟩ := by
    rw [proxies_setChanges_ne hlt.ne']
    exact List.getElem?_concat_length
  have htarget := targetOf_of_proxy hlast
  refine ⟨h.change hproxy hx rfl (proxies_setChanges_self (hold hproxy)) ?_ ?_
    (htracks (fun hr => hr.mono ?_ fun _ _ => id) htarget) hkeep, htarget⟩
  · intro j hj hjl
    rw [proxies_setChanges_ne hj]
    show (w.proxies ++ [_])[j]? = _
    rw [List.getElem?_append]
    split
    · rfl
    · rw [List.getElem?_eq_none (by simp; omega), List.getElem?_eq_none (by omega)]
  · intro proxy hp
    cases hlast.symm.trans hp
    exact ⟨hm, ⟨y, hy, rfl⟩, hfree, hparent⟩
  · intro j n hj
    obtain ⟨proxy, hp, rfl⟩ := Option.map_eq_some_iff.mp hj
    rw [World.targetOf, proxies_setChanges, hold hp]
    by_cases hij : i = j <;> simp [hij]

/-! ### Reading -/

theorem Next.refl (h : Sim d w c) : Next d w w c c := ⟨h, id⟩

/-- A read of the world and one of the copy. -/
structure Reads (d : Source P) (w : World P) (c : Copy P)
    (result : Lookup Ref P × World P) (lookup : Lookup Nat P) : Prop where
  lookup : result.1.map object = lookup
  next : Next d w result.2 c c
  visible {r : Ref} : result.1 = .value (.ref r) → Visible result.2 c r

/-- An object of the augmented data that a proxy still leads to. -/
structure Pending (w : World P) (c : Copy P) (m : Nat) (y : Node Ref P) :
    Prop where
  node : w.nodes[m]? = some y
  flag : c.flag m = some true
  plain : Plain y
  free : ∀ j, w.targetOf j ≠ some m

theorem Sim.pending (h : Sim d w c) (hproxy : w.proxies[i]? = some ⟨t, changes⟩)
    (hx : w.nodes[t]? = some x) (hown : changes.own? x k = some (.ref r))
    (hxown : x.own? k = some (.ref r)) :
    ∃ m y, r = .raw m ∧ Pending w c m y := by
  have ht := h.flag_target (targetOf_of_proxy hproxy)
  obtain ⟨m, rfl, hm⟩ := (h.data hx ht).2 k r hxown
  have hlt : m < w.nodes.length := h.length ▸ lt_of_flag hm
  have hy := getElem?_eq_getElem hlt
  refine ⟨m, _, rfl, hy, hm, (h.data hy hm).1, fun j hj => ?_⟩
  obtain ⟨i', changes', hproxy', hne⟩ := h.parent hx ht hxown hj
  cases h.distinct (targetOf_of_proxy hproxy') (targetOf_of_proxy hproxy)
  cases hproxy.symm.trans hproxy'
  exact hne hown

theorem Pending.augment (h : Pending w c m y) : w.augment (.raw m) = w.newProxy m (fresh y) := by
  obtain ⟨hy, -, hplain, -⟩ := h
  rw [World.augment, hy]
  cases y with
  | object members | array data => rfl
  | date | regexp | bytes => exact hplain.elim

theorem Pending.text? (h : Pending w c m y) : w.text? (.raw m) = none := by
  obtain ⟨hy, -, hplain, -⟩ := h
  rw [World.text?, hy]
  cases y with
  | object members | array data => rfl
  | date | regexp | bytes => exact hplain.elim

theorem Sim.parent_eq (h : Sim d w c) (hx : w.nodes[t]? = some x)
    (ht : c.flag t = some true) (hxown : x.own? k = some (.ref (.raw m))) {z : Node Ref P}
    {l : Key} (hz : w.nodes[n]? = some z) (hn : c.flag n = some true)
    (hown : z.own? l = some (.ref (.raw m))) : n = t ∧ l = k :=
  h.single hz hx hn ht hown hxown

variable {R : Type}

theorem get_of_object {x : Node R P} (hx : x.isArray = false) : x.get k = match x.own? k with
      | some v => .value v
      | none =>
        if k.1 ∈ N8nDirectedGraph.objectPrototype then .method false
        else .value (.prim .undefined) := by
  rw [Node.get, Node.inherits, hx, Bool.false_and, Bool.or_false]
  rcases x.own? k with _ | v
  · simp only [contains_iff_mem]
  · rfl

variable {deleted : List Key} {newData : OrderedMap Key (Value Ref P)}

theorem Sim.getObject (h : Sim d w c) (k : Key)
    (hproxy : w.proxies[i]? = some ⟨t, .object newData deleted⟩) (hx : w.nodes[t]? = some x)
    (hcell : (c)[t]? = some ⟨node, true⟩) (htracks : Tracks w c x (.object newData deleted) node) :
    Reads d w c (getObject x newData deleted w i k) (node.get k) := by
  obtain @⟨_, _, members, hkind, hown, hplain, hdeleted, hnew⟩ := htracks
  have ht := flag_of_cell hcell
  have hownk := hown k
  rw [get_of_object rfl, Node.own?, ← hownk, N8nAugmentObject.getObject]
  by_cases hk : k.1 = "constructor"
  · have hnone : members.get? k = none :=
      get?_eq_none.mpr fun hmem => hplain k hmem hk
    have hinherited : k.1 ∈ N8nDirectedGraph.objectPrototype := by
      rw [hk]
      decide
    rw [if_pos hk, hownk, hnone, if_pos hinherited]
    exact ⟨rfl, .refl h, fun heq => by cases heq⟩
  rw [if_neg hk]
  rw [Changes.own?]
  by_cases hdel : k ∈ deleted
  · rw [if_pos hdel, if_pos hdel]
    rw [if_neg (hdeleted k hdel)]
    exact ⟨rfl, .refl h, fun heq => by cases heq⟩
  rw [if_neg hdel, if_neg hdel]
  rcases hnd : newData.get? k with _ | v
  · rw [Option.none_or]
    rw [get_of_object hkind]
    rcases hxk : x.own? k with _ | p | r
    · by_cases hinherited : k.1 ∈ N8nDirectedGraph.objectPrototype
      · simp only [if_pos hinherited]
        exact ⟨rfl, .refl h, fun heq => by cases heq⟩
      · simp only [if_neg hinherited]
        exact ⟨rfl, .refl h, fun heq => by cases heq⟩
    · exact ⟨rfl, .refl h, fun heq => by cases heq⟩
    · have hownr : (Changes.object newData deleted).own? x k
          = some (.ref r) := by
        rw [Changes.own?, if_neg hdel, hnd, Option.none_or, hxk]
      obtain ⟨m, y, rfl, hpending⟩ := h.pending hproxy hx hownr hxk
      have hadopt := h.adopt (.object (newData.set k (.ref (.proxy w.proxies.length m))) deleted)
        (.object members) hproxy hx hpending.node hpending.flag hpending.free ?_ ?_ ?_
      · obtain ⟨hnext, htarget⟩ := hadopt
        rw [setNode_same hcell] at hnext
        dsimp only
        rw [hpending.text?, hpending.augment]
        refine ⟨rfl, hnext, ?_⟩
        intro r hr
        cases hr
        exact htarget
      · intro n z l hz hn hl
        obtain ⟨rfl, rfl⟩ := h.parent_eq hx ht hxk hz hn hl
        refine ⟨rfl, ?_⟩
        rw [Changes.own?, if_neg hdel, get?_set, if_pos rfl]
        exact fun heq => by cases heq
      · intro w' hvisible htarget
        refine .object hkind ?_ hplain hdeleted ?_
        · intro l
          rw [← hown l, Changes.own?, Changes.own?, get?_set]
          by_cases hkl : k = l
          · subst hkl
            rw [if_neg hdel, if_neg hdel, if_pos rfl, hnd, hxk]
            rfl
          · rw [if_neg hkl]
        · intro l r hr
          rw [get?_set] at hr
          split at hr
          · cases hr
            exact htarget
          · exact hvisible (hnew l r hr)
      · intro l s hl _
        rw [Changes.own?, get?_set] at hl
        rw [Changes.own?]
        by_cases hkl : k = l
        · subst hkl
          rw [if_neg hdel, if_pos rfl] at hl
          cases hl
        · rwa [if_neg hkl] at hl
  · refine ⟨rfl, .refl h, ?_⟩
    intro r hr
    cases hr
    exact hnew k r hnd

variable {data : ArrayData Ref P}

theorem Sim.getData (h : Sim d w c) (newData : Option (ArrayData Ref P))
    (hx : w.nodes[t]? = some (.array data)) (ht : c.flag t = some true) :
    getData data newData = newData.getD data := by
  have hplain : data.spread = data := (h.data hx ht).1
  rw [N8nAugmentObject.getData, hplain]

theorem own?_array (newData : Option (ArrayData Ref P)) (data : ArrayData Ref P) (k : Key) :
    (Changes.array newData).own? (.array data) k = (newData.getD data).own? k := by
  cases newData <;> rfl

theorem own?_of_get {x : Node R P} {r : R}
    (h : x.get k = .value (.ref r)) : x.own? k = some (.ref r) := by
  rw [Node.get] at h
  rcases hx : x.own? k with _ | v <;> rw [hx] at h
  · dsimp only at h
    split at h <;> cases h
  · cases h
    rfl

theorem put_proxy (toLength : P → Option Nat) {a : ArrayData Ref P}
    (i : Nat) (h : a.own? k = some (.ref (.raw m))) :
    ∃ b, a.put toLength k (.ref (.proxy i m)) = some b ∧ b.map object = a.map object := by
  have hown : (a.map object).own? k = some (.ref m) := by
    rw [ArrayData.own?_map, h]
    rfl
  have hput := ArrayData.put_map toLength object a k (.ref (.proxy i m))
  rw [show Value.map object (.ref (.proxy i m)) = (.ref m : Value Nat P)
    from rfl, ArrayData.put_same toLength hown] at hput
  obtain ⟨b, hb, heq⟩ := Option.map_eq_some_iff.mp hput.symm
  exact ⟨b, hb, heq⟩

theorem Sim.getArray (toLength : P → Option Nat) (h : Sim d w c)
    {newData : Option (ArrayData Ref P)} (k : Key)
    (hproxy : w.proxies[i]? = some ⟨t, .array newData⟩)
    (hx : w.nodes[t]? = some x) (hdata : x = .array data)
    (hcell : (c)[t]? = some ⟨node, true⟩)
    (htracks : Tracks w c x (.array newData) node) :
    Reads d w c (getArray data newData toLength w i k) (node.get k) := by
  subst hdata
  obtain _ | @⟨_, _, hkind, hplain, hrefs⟩ := htracks
  cases hkind
  have ht := flag_of_cell hcell
  have hcur := h.getData newData hx ht
  have hown : ∀ l, (Changes.array newData).own? (.array data) l
      = (newData.getD data).own? l := own?_array newData data
  rw [N8nAugmentObject.getArray, hcur]
  rw [← Node.map, Node.get_map]
  generalize newData.getD data = cur at *
  by_cases hk : k.1 = "constructor"
  · have hget : (Node.array cur).get k = .method true := by
      rw [Node.get, Node.own?, hplain k hk]
      have hinherits : (Node.array cur).inherits k = true := by
        rw [Node.inherits, hk]
        rfl
      exact if_pos hinherits
    rw [if_pos hk, hget]
    exact ⟨rfl, .refl h, fun heq => by cases heq⟩
  rw [if_neg hk]
  rcases hget : (Node.array cur).get k with (p | r) | ofArray
  · exact ⟨rfl, .refl h, fun heq => by cases heq⟩
  · have hcurk : cur.own? k = some (.ref r) := own?_of_get hget
    rcases hrefs k r hcurk with ⟨j, n, rfl, htarget⟩ | hxk
    · have hsame : w.augment (.proxy j n) = (.proxy j n, w) := rfl
      dsimp only
      rw [hsame]
      rw [if_neg (not_not.mpr rfl)]
      refine ⟨rfl, .refl h, ?_⟩
      intro r hr
      cases hr
      exact htarget
    · obtain ⟨m, y, rfl, hpending⟩ :=
        h.pending hproxy hx ((hown k).trans hcurk) hxk
      obtain ⟨b, hput, hmap⟩ := put_proxy toLength w.proxies.length hcurk
      have hadopt := h.adopt (.array (some b)) (.array (cur.map object))
        hproxy hx hpending.node hpending.flag hpending.free ?_ ?_ ?_
      · obtain ⟨hnext, htarget⟩ := hadopt
        rw [setNode_same hcell] at hnext
        dsimp only
        rw [hpending.augment]
        dsimp only [World.newProxy]
        rw [hput]
        refine ⟨rfl, hnext, ?_⟩
        intro r hr
        cases hr
        exact htarget
      · intro n z l hz hn hl
        obtain ⟨rfl, rfl⟩ := h.parent_eq hx ht hxk hz hn hl
        refine ⟨rfl, fun hb => ?_⟩
        rcases ArrayData.own?_put toLength hput hb with ⟨-, heq⟩ | ⟨hne, -⟩
        · cases heq
        · exact hne rfl
      · intro w' hvisible htarget
        rw [← hmap]
        refine .array rfl ?_ ?_
        · intro l hl
          have hnone := ArrayData.own?_map object b l
          rw [hmap, ArrayData.own?_map, hplain l hl] at hnone
          exact Option.map_eq_none_iff.mp hnone.symm
        · intro l r hr
          rcases ArrayData.own?_put toLength hput hr with
            ⟨rfl, heq⟩ | ⟨hne, hr⟩
          · cases heq
            exact .inl ⟨_, _, rfl, htarget⟩
          · rcases hrefs l r hr with ⟨j, n, rfl, hj⟩ | hr
            · exact .inl ⟨j, n, rfl, hvisible (r := .proxy j n) hj⟩
            · exact .inr hr
      · intro l s hl _
        rcases ArrayData.own?_put toLength hput hl with ⟨-, heq⟩ | ⟨-, hl⟩
        · cases heq
        · exact (hown l).trans hl
  · exact ⟨rfl, .refl h, fun heq => by cases heq⟩

/-! ### Deleting and assigning -/

/-- A change of the world and one of the copy. -/
structure Writes (d : Source P) (w : World P) (c : Copy P)
    (result : Bool × World P) (result' : Bool × Copy P) : Prop where
  flag : result.1 = result'.1
  next : Next d w result.2 c result'.2

theorem Sim.deleteObject (h : Sim d w c) (changes' : Changes P)
    (hproxy : w.proxies[i]? = some ⟨t, .object newData deleted⟩) (hx : w.nodes[t]? = some x)
    (htracks : Tracks w c x (.object newData deleted) node)
    (hinherited : k.1 ∉ N8nDirectedGraph.objectPrototype)
    (hchanges : ∃ added : Bool, ((x.own? k).isSome → added = true) ∧
      changes' = .object (newData.delete k) (if added then deleted.insert k else deleted)) :
    (node.remove k).1 = true ∧
      Next d w (w.setChanges i changes') c (c.setNode t (node.remove k).2) := by
  obtain @⟨_, _, members, hkind, hown, hplain, hdeleted, hnew⟩ := htracks
  obtain ⟨added, hadded, rfl⟩ := hchanges
  have hown' : ∀ l, (Changes.object (newData.delete k)
      (if added then deleted.insert k else deleted)).own? x l
        = if l = k then none
          else (Changes.object newData deleted).own? x l := by
    intro l
    rw [Changes.own?, Changes.own?, get?_delete]
    by_cases hlk : l = k
    · subst hlk
      rw [if_pos rfl, if_pos rfl, Option.none_or]
      rcases hx : x.own? l with _ | v
      · exact ite_self _
      · rw [if_pos]
        rw [if_pos (hadded (by rw [hx]; rfl))]
        exact mem_insert_self
    · have hmem : l ∈ (if added then deleted.insert k else deleted)
          ↔ l ∈ deleted := by
        split
        · rw [mem_insert_iff, or_iff_right hlk]
        · rfl
      rw [if_neg hlk, if_neg hlk]
      simp [hmem]
  refine ⟨rfl, h.update hproxy hx ?_ ?_⟩
  · refine .object hkind ?_ ?_ ?_ ?_
    · intro l
      rw [hown', get?_delete, ← hown l]
      split <;> rfl
    · intro l hl
      exact hplain l (mem_keys_delete.mp hl).2
    · intro l hl
      split at hl
      · rcases mem_insert_iff.mp hl with rfl | hl
        · exact hinherited
        · exact hdeleted l hl
      · exact hdeleted l hl
    · intro l r hr
      rw [get?_delete] at hr
      split at hr
      · cases hr
      · exact hnew l r hr
  · intro l m hl _
    rw [hown'] at hl
    split at hl
    · cases hl
    · exact hl

theorem Sim.setObject (h : Sim d w c) {members : OrderedMap Key (Value Nat P)} {v : Value Ref P}
    (hproxy : w.proxies[i]? = some ⟨t, .object newData deleted⟩) (hx : w.nodes[t]? = some x)
    (htracks : Tracks w c x (.object newData deleted) (.object members))
    (hk : k.1 ≠ "constructor") (hv : ∀ r, v = .ref r → Visible w c r) :
    Next d w (w.setChanges i (.object (newData.set k v) (deleted.filter (· ≠ k)))) c
      (c.setNode t (.object (members.set k (v.map object)))) := by
  obtain @⟨_, _, _, hkind, hown, hplain, hdeleted, hnew⟩ := htracks
  have hown' : ∀ l, (Changes.object (newData.set k v)
      (deleted.filter (· ≠ k))).own? x l = if k = l then some v
        else (Changes.object newData deleted).own? x l := by
    intro l
    rw [Changes.own?, Changes.own?, get?_set]
    by_cases hkl : k = l
    · subst hkl
      have hnot : k ∉ deleted.filter (· ≠ k) := by simp
      rw [if_neg hnot, if_pos rfl, if_pos rfl]
      rfl
    · have hmem : l ∈ deleted.filter (· ≠ k) ↔ l ∈ deleted := by
        simp [Ne.symm hkl]
      rw [if_neg hkl, if_neg hkl]
      simp only [hmem]
  refine h.update hproxy hx ?_ ?_
  · refine .object hkind ?_ ?_ ?_ ?_
    · intro l
      rw [hown', get?_set, ← hown l]
      split <;> rfl
    · intro l hl
      rcases mem_keys_set.mp hl with rfl | hl
      · exact hk
      · exact hplain l hl
    · exact fun l hl => hdeleted l (mem_of_mem_filter hl)
    · intro l r hr
      rw [get?_set] at hr
      split at hr
      · cases hr
        exact hv r rfl
      · exact hnew l r hr
  · intro l m hl hxl
    rw [hown'] at hl
    split at hl
    · cases hl
      have hm := hv _ rfl
      have ht := h.flag_target (targetOf_of_proxy hproxy)
      obtain ⟨s, heq, hs⟩ := (h.data hx ht).2 l _ hxl
      cases heq
      cases hs.symm.trans hm
    · exact hl

theorem Sim.updateArray (h : Sim d w c) {a : ArrayData Ref P} {newData : Option (ArrayData Ref P)}
    (hproxy : w.proxies[i]? = some ⟨t, .array newData⟩) (hx : w.nodes[t]? = some x)
    (hdata : x = .array data) (htracks : Tracks w c x (.array newData) node)
    (hplain : ∀ k, k.1 = "constructor" → a.own? k = none)
    (hrefs : ∀ k r, a.own? k = some (.ref r) → (∃ j n, r = .proxy j n ∧ w.targetOf j = some n) ∨
        (newData.getD data).own? k = some (.ref r)) :
    Next d w (w.setChanges i (.array (some a))) c (c.setNode t (.array (a.map object))) := by
  subst hdata
  obtain _ | @⟨_, _, hkind, -, hold⟩ := htracks
  cases hkind
  have hown := own?_array newData data
  refine h.update hproxy hx (.array rfl hplain ?_) ?_
  · intro k r hr
    rcases hrefs k r hr with hr | hr
    · exact .inl hr
    · exact hold k r hr
  · intro k m hk _
    rcases hrefs k _ hk with ⟨j, n, heq, -⟩ | hk
    · cases heq
    · exact (hown k).trans hk

theorem Sim.deleteArray (h : Sim d w c) {newData : Option (ArrayData Ref P)} (k : Key)
    (hproxy : w.proxies[i]? = some ⟨t, .array newData⟩) (hx : w.nodes[t]? = some x)
    (hdata : x = .array data) (hcell : (c)[t]? = some ⟨node, true⟩)
    (htracks : Tracks w c x (.array newData) node) :
    Writes d w c ((deleteArray data newData k).1, w.setChanges i (deleteArray data newData k).2)
      ((node.remove k).1, c.setNode t (node.remove k).2) := by
  have htr := htracks
  subst hdata
  obtain _ | @⟨_, _, hkind, hplain, -⟩ := htracks
  cases hkind
  rw [N8nAugmentObject.deleteArray,
    h.getData newData hx (flag_of_cell hcell), ← Node.map, Node.remove_map]
  refine ⟨rfl, h.updateArray hproxy hx rfl htr ?_ ?_⟩
  · intro l hl
    exact ArrayData.own?_remove_named (slot_constructor hl) (hplain l hl)
  · exact fun l r hr => .inr (ArrayData.own?_remove hr).2

/-- What `Reflect.set` does to an object of the copy. -/
def Copy.putNode (toLength : P → Option Nat) (c : Copy P) (t : Nat)
    (node : Node Nat P) (k : Key) (v : Value Nat P) : Bool × Copy P :=
  match node.put toLength k v with
  | some x => (true, c.setNode t x)
  | none => (false, c)

section

variable {newData : Option (ArrayData Ref P)} (toLength : P → Option Nat) (h : Sim d w c)
  (hproxy : w.proxies[i]? = some ⟨t, .array newData⟩) (hx : w.nodes[t]? = some x)
  (hdata : x = .array data) (hcell : (c)[t]? = some ⟨node, true⟩)
  (htracks : Tracks w c x (.array newData) node) (hk : k.1 ≠ "constructor")
include h hproxy hx hdata hcell htracks hk

theorem Sim.setArray {v : Value Ref P}
    (hv : ∀ r, v = .ref r → ∃ j n, r = .proxy j n ∧ w.targetOf j = some n) :
    Writes d w c (setArray data newData toLength w i k v)
      (c.putNode toLength t node k (v.map object)) := by
  have htr := htracks
  subst hdata
  obtain _ | @⟨_, _, hkind, hplain, -⟩ := htracks
  cases hkind
  have hsame : w.augmentValue v = (v, w) := by
    rcases v with p | r
    · rfl
    · obtain ⟨j, n, rfl, -⟩ := hv r rfl
      rfl
  rw [N8nAugmentObject.setArray, hsame, Copy.putNode,
    h.getData newData hx (flag_of_cell hcell), ← Node.map, Node.put_map]
  dsimp only [Node.put]
  rcases hput : (newData.getD data).put toLength k v with _ | a
  · refine ⟨rfl, ?_⟩
    have hnext := h.updateArray hproxy hx rfl htr hplain fun l r hr => .inr hr
    rwa [setNode_same hcell] at hnext
  · refine ⟨rfl, h.updateArray hproxy hx rfl htr ?_ ?_⟩
    · intro l hl
      rw [ArrayData.own?_put_named toLength hput (slot_constructor hl), hplain l hl]
      rintro rfl
      exact hk hl
    · intro l r hr
      rcases ArrayData.own?_put toLength hput hr with ⟨-, heq⟩ | ⟨-, hr⟩
      · exact .inl (hv r heq)
      · exact .inr hr

/-- An object that nothing leads to is augmented where it is put. -/
theorem Sim.setArrayNew (hpending : Pending w c m y)
    (hroot : ∀ {n z l}, w.nodes[n]? = some z → c.flag n = some true →
      z.own? l ≠ some (.ref (.raw m))) :
    Writes d w c (N8nAugmentObject.setArray data newData toLength w i k (.ref (.raw m)))
      (c.putNode toLength t node k (.ref m)) := by
  subst hdata
  obtain _ | @⟨_, _, hkind, hplain, hrefs⟩ := htracks
  cases hkind
  have hown := own?_array newData data
  rw [N8nAugmentObject.setArray, World.augmentValue, hpending.augment,
    Copy.putNode, h.getData newData hx (flag_of_cell hcell), ← Node.map]
  have hput := Node.put_map toLength object
    (.array (newData.getD data)) k (.ref (.proxy w.proxies.length m))
  rw [show Value.map object (.ref (.proxy w.proxies.length m))
    = (.ref m : Value Nat P) from rfl] at hput
  rw [hput]
  dsimp only [Node.put, World.newProxy]
  have hadopt : ∀ a : ArrayData Ref P, (∀ l, l.1 = "constructor" → a.own? l = none) →
      (∀ l r, a.own? l = some (.ref r) → r = .proxy w.proxies.length m ∨
          (newData.getD data).own? l = some (.ref r)) →
      Next d w ((w.newProxy m (fresh y)).2.setChanges i (.array (some a))) c
        (c.setNode t (.array (a.map object))) := by
    intro a ha hrefsa
    refine (h.adopt (.array (some a)) (.array (a.map object)) hproxy hx
      hpending.node hpending.flag hpending.free ?_ ?_ ?_).1
    · intro n z l hz hn hl
      exact absurd hl (hroot hz hn)
    · intro w' hvisible htarget
      refine .array rfl ha ?_
      intro l r hr
      rcases hrefsa l r hr with rfl | hr
      · exact .inl ⟨_, _, rfl, htarget⟩
      · rcases hrefs l r hr with ⟨j, n, rfl, hj⟩ | hr
        · exact .inl ⟨j, n, rfl, hvisible (r := .proxy j n) hj⟩
        · exact .inr hr
    · intro l s hl _
      rcases hrefsa l _ hl with heq | hl
      · cases heq
      · exact (hown l).trans hl
  rcases hput : (newData.getD data).put toLength k (.ref (.proxy w.proxies.length m)) with _ | a
  · refine ⟨rfl, ?_⟩
    have hnext := hadopt _ hplain fun l r hr => .inr hr
    rwa [setNode_same hcell] at hnext
  · refine ⟨rfl, hadopt a ?_ ?_⟩
    · intro l hl
      rw [ArrayData.own?_put_named toLength hput (slot_constructor hl), hplain l hl]
      rintro rfl
      exact hk hl
    · intro l r hr
      rcases ArrayData.own?_put toLength hput hr with ⟨-, heq⟩ | ⟨-, hr⟩
      · cases heq
        exact .inl rfl
      · exact .inr hr

end

/-! ### Asking for members and keys -/

theorem own?_object :
    descriptorObject x newData deleted k = (Changes.object newData deleted).own? x k := by
  rw [descriptorObject, holder, Changes.own?, OrderedMap.has]
  by_cases hk : k ∈ deleted
  · rw [if_pos hk, if_pos hk]
  · rw [if_neg hk, if_neg hk]
    rcases hnd : newData.get? k with _ | v
    · rfl
    · exact hnd

theorem Tracks.hasObject (k : Key) (h : Tracks w c x (.object newData deleted) node) :
    hasObject x newData deleted k = node.has k := by
  obtain @⟨_, _, members, hkind, hown, -, hdeleted, -⟩ := h
  have hinherits : x.inherits k = (Node.object members).inherits k := by
    rw [Node.inherits, hkind]
    rfl
  have hownk := hown k
  rw [Changes.own?] at hownk
  have hhas : (Node.object members).has k = ((members.get? k).isSome
      || (Node.object members).inherits k) := rfl
  rw [N8nAugmentObject.hasObject, hhas, ← hownk]
  by_cases hk : k ∈ deleted
  · have hnot : (Node.object members).inherits k = false := by
      rw [Node.inherits, Bool.or_eq_false_iff]
      refine ⟨Bool.eq_false_iff.mpr fun hmem => ?_, rfl⟩
      exact hdeleted k hk (contains_iff_mem.mp hmem)
    rw [if_pos hk, if_pos hk, hnot]
    rfl
  · rw [if_neg hk, if_neg hk, holder, OrderedMap.has, Option.isSome_map]
    rcases hnd : newData.get? k with _ | v
    · rw [Option.none_or, Option.isSome_none, if_neg Bool.false_ne_true, Node.has, hinherits]
    · rw [Option.isSome_some, if_pos rfl, Node.has, Node.own?, hnd]
      rfl

theorem Tracks.ownKeysObject (hplain : Plain x) (h : Tracks w c x (.object newData deleted) node) :
    (ownKeysObject x newData deleted).Perm node.keys := by
  obtain @⟨_, _, members, hkind, hown, -, -, -⟩ := h
  obtain ⟨own, rfl⟩ : ∃ own, x = .object own := by
    cases x with
    | object own => exact ⟨own, rfl⟩
    | array data => cases hkind
    | date | regexp | bytes => exact hplain.elim
  have hnodup : ∀ {ν : Type} (m : OrderedMap Key ν), (m.keys.map Subtype.val).Nodup :=
    fun m => m.nodup.map Subtype.val_injective
  have hval : ∀ {l : List Key} {k : Key}, k.1 ∈ l.map Subtype.val ↔ k ∈ l :=
    mem_map_of_injective Subtype.val_injective
  rw [perm_ext_iff_of_nodup]
  · intro s
    have hmem : ∀ k : Key, k.1 ∈ N8nAugmentObject.ownKeysObject
        (.object own) newData deleted ↔ k ∈ members.keys := by
      intro k
      have hownk := congrArg Option.isSome (hown k)
      rw [Option.isSome_map, Changes.own?] at hownk
      rw [N8nAugmentObject.ownKeysObject, mem_filter, mem_append,
        mem_filter, ← has_iff, OrderedMap.has, ← hownk]
      simp only [decide_eq_true_eq, Node.keys, hval]
      by_cases hk : k ∈ deleted
      · simp [hk]
      · rw [if_neg hk, Option.isSome_or, Bool.or_eq_true]
        rw [← has_iff, ← has_iff, OrderedMap.has, OrderedMap.has]
        show _ ↔ _ ∨ (own.get? k).isSome = true
        tauto
    constructor
    · intro hs
      have hkey : ∃ k : Key, k.1 = s := by
        rw [N8nAugmentObject.ownKeysObject, mem_filter, mem_append, mem_filter] at hs
        rcases hs.1 with hs | hs
        · obtain ⟨k, -, hk⟩ := mem_map.mp hs
          exact ⟨k, hk⟩
        · obtain ⟨k, -, hk⟩ := mem_map.mp hs.1
          exact ⟨k, hk⟩
      obtain ⟨k, rfl⟩ := hkey
      exact hval.mpr ((hmem k).mp hs)
    · intro hs
      obtain ⟨k, hk, rfl⟩ := mem_map.mp hs
      exact (hmem k).mpr hk
  · refine List.Nodup.filter _ ?_
    refine List.Nodup.append (hnodup own) ((hnodup newData).filter _) ?_
    intro s hs hs'
    rw [mem_filter] at hs'
    exact of_decide_eq_true hs'.2 hs
  · exact hnodup members

/-! ### The three kinds of objects -/

/-- What a reference that a client holds leads to. -/
inductive Held (w : World P) (c : Copy P) : Ref → Prop where
  | raw {n : Nat} {x : Node Ref P} (hx : w.nodes[n]? = some x)
      (hcell : (c)[n]? = some ⟨x.map object, false⟩)
      (hrefs : ∀ k r, x.own? k = some (.ref r) → Visible w c r) :
      Held w c (.raw n)
  | object {i t : Nat} {newData : OrderedMap Key (Value Ref P)}
      {deleted : List Key} {x : Node Ref P}
      {members : OrderedMap Key (Value Nat P)}
      (hproxy : w.proxies[i]? = some ⟨t, .object newData deleted⟩)
      (hx : w.nodes[t]? = some x) (hplain : Plain x)
      (hcell : (c)[t]? = some ⟨.object members, true⟩)
      (htracks : Tracks w c x (.object newData deleted) (.object members)) :
      Held w c (.proxy i t)
  | array {i t : Nat} {newData : Option (ArrayData Ref P)}
      {data : ArrayData Ref P}
      (hproxy : w.proxies[i]? = some ⟨t, .array newData⟩)
      (hx : w.nodes[t]? = some (.array data))
      (hcell : (c)[t]? = some ⟨.array ((newData.getD data).map N8nAugmentObject.object), true⟩)
      (htracks : Tracks w c (.array data) (.array newData)
        (.array ((newData.getD data).map N8nAugmentObject.object))) :
      Held w c (.proxy i t)

theorem Sim.held (h : Sim d w c) (hr : Visible w c r) : Held w c r := by
  cases r with
  | raw n =>
    obtain ⟨⟨node, b⟩, hcell, hb⟩ := Option.map_eq_some_iff.mp hr
    cases hb
    have hlt : n < w.nodes.length := h.length ▸ lt_of_flag hr
    have hx := getElem?_eq_getElem hlt
    obtain ⟨rfl, hrefs⟩ := h.plain hx hcell
    exact .raw hx hcell hrefs
  | proxy i t =>
    obtain ⟨⟨t', changes⟩, hproxy, heq⟩ := Option.map_eq_some_iff.mp hr
    cases heq
    obtain ⟨x, node, hx, hcell, htracks⟩ := h.tracks hproxy
    have hplain := (h.data hx (flag_of_cell hcell)).1
    have htr := htracks
    cases htr with
    | object => exact .object hproxy hx hplain hcell htracks
    | array hkind =>
      subst hkind
      exact .array hproxy hx hcell htracks

theorem handlers_of_proxy (hproxy : w.proxies[i]? = some ⟨t, changes⟩)
    (hx : w.nodes[t]? = some x) : w.handlers i t = some (changes, x) := by
  rw [World.handlers, hproxy, hx]
  rfl

theorem Sim.get (toLength : P → Option Nat) (h : Sim d w c) (hr : Visible w c r) (k : Key) :
    Reads d w c (w.get toLength r k) (c.get (object r) k) := by
  cases h.held hr with
  | raw hx hcell hrefs =>
    rw [World.get, hx, Copy.get, object, hcell]
    dsimp only
    rw [Node.get_map]
    exact ⟨rfl, .refl h, fun hget => hrefs k _ (own?_of_get hget)⟩
  | object hproxy hx hplain hcell htracks =>
    rw [World.get, handlers_of_proxy hproxy hx, Copy.get, N8nAugmentObject.object, hcell]
    exact h.getObject k hproxy hx hcell htracks
  | array hproxy hx hcell htracks =>
    rw [World.get, handlers_of_proxy hproxy hx, Copy.get, N8nAugmentObject.object, hcell]
    exact h.getArray toLength k hproxy hx rfl hcell htracks

theorem Sim.has (h : Sim d w c) (hr : Visible w c r) (k : Key) :
    w.has r k = (((c)[object r]?.map fun cell => cell.node.has k).getD false) := by
  cases h.held hr with
  | raw hx hcell hrefs =>
    rw [World.has, hx, object, hcell]
    exact (Node.has_map ..).symm
  | object hproxy hx hplain hcell htracks =>
    rw [World.has, handlers_of_proxy hproxy hx, N8nAugmentObject.object, hcell]
    exact htracks.hasObject k
  | array hproxy hx hcell htracks =>
    rw [World.has, handlers_of_proxy hproxy hx, N8nAugmentObject.object, hcell]
    exact (Node.has_map ..).symm

theorem Sim.ownKeys (h : Sim d w c) (hr : Visible w c r) :
    (w.ownKeys r).Perm (((c)[object r]?.map fun cell => cell.node.keys).getD []) := by
  cases h.held hr with
  | raw hx hcell hrefs =>
    rw [World.ownKeys, hx, object, hcell]
    exact List.Perm.of_eq (Node.keys_map ..).symm
  | object hproxy hx hplain hcell htracks =>
    rw [World.ownKeys, handlers_of_proxy hproxy hx, N8nAugmentObject.object, hcell]
    exact htracks.ownKeysObject hplain
  | array hproxy hx hcell htracks =>
    rw [World.ownKeys, handlers_of_proxy hproxy hx, N8nAugmentObject.object, hcell]
    exact List.Perm.of_eq (Node.keys_map object (.array _)).symm

theorem primitive?_map {Q : Type} (f : R → Q) (v : Option (Value R P)) :
    (v.map (Value.map f)).map primitive? = v.map primitive? := by
  rcases v with _ | _ | _ <;> rfl

theorem Sim.descriptor (h : Sim d w c) (hr : Visible w c r)
    (k : Key) (hallow : c.Allows (.getOwnPropertyDescriptor (object r) k)) :
    (w.getOwnPropertyDescriptor r k).map primitive?
      = ((c)[object r]?.bind fun cell => cell.node.own? k).map primitive? := by
  cases h.held hr with
  | raw hx hcell hrefs =>
    rw [World.getOwnPropertyDescriptor, hx, object, hcell]
    dsimp only [Option.bind_some]
    rw [Node.own?_map, primitive?_map]
  | @object i t newData deleted x members hproxy hx hplain hcell htracks =>
    rw [World.getOwnPropertyDescriptor, handlers_of_proxy hproxy hx, N8nAugmentObject.object, hcell]
    obtain @⟨_, _, _, -, hown, -, -, -⟩ := htracks
    show (descriptorObject x newData deleted k).map primitive? = (members.get? k).map primitive?
    rw [← hown k, primitive?_map, own?_object]
  | array hproxy hx hcell htracks =>
    cases hallow _ hcell rfl

/-! ### Changing what is held -/

theorem Sim.delete (h : Sim d w c) (hr : Visible w c r)
    (hallow : c.Allows (.deleteProperty (object r) k)) :
    Writes d w c (w.deleteProperty r k) (c.deleteProperty (object r) k) := by
  cases h.held hr with
  | raw hx hcell hrefs =>
    rw [World.deleteProperty, hx, Copy.deleteProperty, object, hcell]
    dsimp only
    rw [Node.remove_map]
    refine ⟨rfl, h.setNode hx (flag_of_cell hcell) ?_⟩
    exact fun l r hl => hrefs l r (Node.own?_remove hl).2
  | @object i t newData deleted x members hproxy hx hplain hcell htracks =>
    rw [World.deleteProperty, handlers_of_proxy hproxy hx,
      Copy.deleteProperty, N8nAugmentObject.object, hcell]
    obtain ⟨hflag, hnext⟩ := h.deleteObject
      (N8nAugmentObject.deleteObject x newData deleted k) hproxy hx htracks
      (hallow _ hcell rfl rfl) ⟨(x.own? k).isSome, id, rfl⟩
    exact ⟨hflag.symm, hnext⟩
  | array hproxy hx hcell htracks =>
    rw [World.deleteProperty, handlers_of_proxy hproxy hx,
      Copy.deleteProperty, N8nAugmentObject.object, hcell]
    exact h.deleteArray k hproxy hx rfl hcell htracks

theorem isUndefined_map {Q : Type} (f : R → Q) (v : Value R P) :
    (v.map f).isUndefined = v.isUndefined := by
  rcases v with (_ | _ | _) | _ <;> rfl

theorem Sim.set (toLength : P → Option Nat) (h : Sim d w c) (hr : Visible w c r)
    {v : Value Ref P} (hv : ∀ r', v = .ref r' → Visible w c r')
    (hallow : c.Allows (.set (object r) k (v.map object))) :
    Writes d w c (w.set toLength r k v) (c.set toLength (object r) k (v.map object)) := by
  cases h.held hr with
  | @raw n x hx hcell hrefs =>
    rw [World.set, hx, Copy.set, object, hcell]
    dsimp only [Option.bind_some]
    rw [if_neg (by simp [Copy.deletes]), Node.put_map]
    rcases hput : x.put toLength k v with _ | x'
    · exact ⟨rfl, .refl h⟩
    · refine ⟨rfl, h.setNode hx (flag_of_cell hcell) ?_⟩
      intro l r hl
      rcases Node.own?_put hput hl with ⟨-, heq⟩ | ⟨-, hl⟩
      · exact hv r heq
      · exact hrefs l r hl
  | @object i t newData deleted x members hproxy hx hplain hcell htracks =>
    obtain ⟨hk, hinherited, -⟩ := (hallow _ hcell).2 rfl
    rw [World.set, handlers_of_proxy hproxy hx, Copy.set, N8nAugmentObject.object, hcell]
    dsimp only
    have hdeletes : Copy.deletes (⟨.object members, true⟩ : Cell P)
        (v.map N8nAugmentObject.object) = v.isUndefined :=
      isUndefined_map _ v
    rw [hdeletes]
    by_cases hundefined : v.isUndefined = true
    · have hname := hinherited rfl ((isUndefined_map _ v).trans hundefined)
      obtain ⟨hflag, hnext⟩ := h.deleteObject
        (N8nAugmentObject.setObject x newData deleted k v) hproxy hx htracks
        hname ⟨x.has k, fun hsome => by rw [Node.has, hsome]; rfl, if_pos hundefined⟩
      rw [if_pos hundefined, Copy.deleteProperty, hcell]
      exact ⟨hflag.symm, hnext⟩
    · rw [if_neg hundefined, N8nAugmentObject.setObject, if_neg hundefined]
      exact ⟨rfl, h.setObject hproxy hx htracks hk hv⟩
  | array hproxy hx hcell htracks =>
    obtain ⟨hk, -, haugmented⟩ := (hallow _ hcell).2 rfl
    rw [World.set, handlers_of_proxy hproxy hx, Copy.set, N8nAugmentObject.object, hcell]
    dsimp only
    rw [if_neg (by simp [Copy.deletes, Node.isArray])]
    refine h.setArray toLength hproxy hx rfl hcell htracks hk ?_
    rintro r rfl
    have hvisible := hv r rfl
    cases r with
    | raw n =>
      obtain ⟨cell, hn, hflag⟩ := Option.map_eq_some_iff.mp hvisible
      cases hflag.symm.trans (haugmented rfl n rfl cell hn)
    | proxy j n => exact ⟨j, n, rfl, hvisible⟩

theorem Held.cell (h : Held w c r) : ∃ cell, (c)[N8nAugmentObject.object r]? = some cell := by
  cases h with
  | raw _ hcell _ => exact ⟨_, hcell⟩
  | object _ _ _ hcell _ => exact ⟨_, hcell⟩
  | array _ _ hcell _ => exact ⟨_, hcell⟩

theorem Sim.pending_root (h : Sim d w c) (e : Source P) :
    ∃ y, Pending (w.add e) (c.add e true) (e.root + c.length) y := by
  obtain ⟨hsim, -⟩ := h.add e true
  have hflag := flag_add_right (c := c) true e.root_lt
  have hlt : e.root + c.length < (w.add e).nodes.length := hsim.length ▸ lt_of_flag hflag
  have hy := getElem?_eq_getElem hlt
  refine ⟨_, hy, hflag, (hsim.data hy hflag).1, fun j hj => ?_⟩
  have hold := lt_of_flag (h.flag_target hj)
  omega

theorem Sim.root_free (h : Sim d w c) (e : Source P)
    {z : Node Ref P} {l : Key} (hz : (w.add e).nodes[n]? = some z)
    (hn : (c.add e true).flag n = some true) :
    z.own? l ≠ some (.ref (.raw (e.root + c.length))) := by
  intro hl
  rcases node_add hz with hz | ⟨m, y, rfl, hy, rfl⟩
  · have hlt : n < c.length :=
      h.length ▸ (List.getElem?_eq_some_iff.mp hz).1
    rw [Copy.flag, Copy.add, getElem?_append_left hlt] at hn
    have hs := h.lt_of_own hz hn hl
    omega
  · obtain ⟨s, heq, -, hs⟩ := own?_added hy hl
    rw [h.length] at heq
    cases Nat.add_right_cancel (Ref.raw.inj heq)
    exact e.root_free y (mem_of_getElem? hy) l hs

theorem Sim.setNew (toLength : P → Option Nat) (h : Sim d w c) (hr : Visible w c r)
    (hallow : c.Allows (.setNew (object r) k e)) :
    Writes d w c ((w.add e).set toLength r k (.ref (.raw (e.root + w.nodes.length))))
      ((c.add e (c.marks (object r))).set toLength (object r) k (.ref (e.root + c.length))) := by
  obtain ⟨hsim, hvisible⟩ := h.add e (c.marks (object r))
  have hroot : (c.add e (c.marks (object r))).flag (e.root + c.length)
      = some (c.marks (object r)) := flag_add_right _ e.root_lt
  have hlt : object r < c.length := by
    obtain ⟨cell, hcell⟩ := (h.held hr).cell
    exact (List.getElem?_eq_some_iff.mp hcell).1
  have hcell' : ∀ {n : Nat} {cell : Cell P}, (c)[n]? = some cell →
      (c.add e (c.marks (object r)))[n]? = some cell := fun hn =>
    (List.getElem?_append_left (List.getElem?_eq_some_iff.mp hn).1).trans hn
  have hset : c.marks (object r) = false →
      (∀ cell, (c)[object r]? = some cell → cell.augmented = true →
        cell.node.isArray = false) → Writes d (w.add e) (c.add e (c.marks (object r)))
        ((w.add e).set toLength r k (.ref (.raw (e.root + w.nodes.length))))
        ((c.add e (c.marks (object r))).set toLength (object r) k (.ref (e.root + c.length))) := by
    intro hmarks hkind
    rw [h.length]
    refine hsim.set toLength (hvisible hr) ?_ ?_
    · intro r' heq
      cases heq
      exact hroot.trans (congrArg some hmarks)
    · intro cell hcell
      have hold : (c)[object r]? = some cell := (getElem?_append_left hlt).symm.trans hcell
      obtain ⟨hlength, hconstructor⟩ := hallow cell hold
      refine ⟨fun _ _ => hlength, fun haug => ⟨hconstructor haug, fun _ => nofun, fun harray => ?_⟩⟩
      cases (hkind cell hold haug).symm.trans harray
  have hchain : Writes d (w.add e) (c.add e (c.marks (object r)))
      ((w.add e).set toLength r k (.ref (.raw (e.root + w.nodes.length))))
      ((c.add e (c.marks (object r))).set toLength (object r) k (.ref (e.root + c.length))) := by
    cases h.held hr with
    | raw hx hcell hrefs =>
      refine hset ?_ ?_
      · rw [Copy.marks, object, hcell]
        rfl
      · intro cell hn haug
        cases hcell.symm.trans hn
        cases haug
    | object hproxy hx hplain hcell htracks =>
      refine hset ?_ ?_
      · rw [Copy.marks, N8nAugmentObject.object, hcell]
        rfl
      · intro cell hn _
        cases hcell.symm.trans hn
        rfl
    | @array i t newData data hproxy hx hcell htracks =>
      have hmarks : c.marks t = true := by
        rw [Copy.marks, hcell]
        rfl
      obtain ⟨hlength, hk⟩ := hallow _ hcell
      obtain ⟨y, hpending⟩ := h.pending_root e
      have hx' : (w.add e).nodes[t]? = some (.array data) :=
        (List.getElem?_append_left (List.getElem?_eq_some_iff.mp hx).1).trans hx
      have hproxy' : (w.add e).proxies[i]? = some ⟨t, .array newData⟩ := hproxy
      have hcell₂ := hcell' hcell
      rw [N8nAugmentObject.object, hmarks] at hsim hcell₂ ⊢
      rw [World.set, handlers_of_proxy hproxy' hx', Copy.set, hcell₂]
      dsimp only
      rw [if_neg (by simp [Copy.deletes, Node.isArray]), h.length]
      exact hsim.setArrayNew toLength hproxy' hx' rfl hcell₂
        (htracks.mono (fun _ _ => id) fun n b hb => flag_add_left e hb)
        (hk rfl) hpending fun hz hn => h.root_free e hz hn
  exact ⟨hchain.flag, hchain.next.sim, fun hr' => hchain.next.visible (hvisible hr')⟩

end

/-! ## Runs -/

section

variable (toLength : P → Option Nat) (d : Source P)

/-- A client that has been given the proxy of the root. -/
def augmentedState : State (World P) Ref where
  world := (augmentSource d).2
  seen := [(augmentSource d).1]

/-- A client that has been given a copy of the root. -/
def copyState (marked : Bool) : State (Copy P) Nat where
  world := Copy.add [] d marked
  seen := [d.root]

theorem augmentSource_eq : ∃ y, (d.nodes[d.root]?) = some y ∧
    augmentSource d = World.newProxy (World.add ⟨[], []⟩ d) d.root (fresh (y.map Ref.raw)) := by
  have hroot : d.root < d.nodes.length := d.root_lt
  have hy := getElem?_eq_getElem hroot
  refine ⟨_, hy, ?_⟩
  have hnode : (World.add ⟨[], []⟩ d).nodes[d.root]? = some (d.nodes[d.root].map Ref.raw) := by
    show (d.nodes.map _)[d.root]? = _
    rw [getElem?_map, hy]
    rfl
  have hplain := d.plain _ (getElem_mem d.root_lt)
  rw [augmentSource, World.augment, hnode]
  generalize d.nodes[d.root] = y at *
  cases y with
  | object members | array data => rfl
  | date | regexp | bytes => exact hplain.elim

theorem sim_start : Sim d (augmentSource d).2 (Copy.add [] d true) ∧
    Visible (augmentSource d).2 (Copy.add [] d true) (augmentSource d).1 ∧
      object (augmentSource d).1 = d.root := by
  obtain ⟨y, hy, heq⟩ := augmentSource_eq d
  rw [heq]
  have hnode : ∀ n : Nat, (World.newProxy (World.add ⟨[], []⟩ d) d.root
      (fresh (y.map Ref.raw))).2.nodes[n]? = (d.nodes[n]?).map (Node.map Ref.raw) :=
    fun n => getElem?_map ..
  have hcell : ∀ n : Nat, (Copy.add [] d true)[n]?
      = (d.nodes[n]?).map fun x => (⟨x.map (· + 0), true⟩ : Cell P) :=
    fun n => getElem?_map ..
  have hflag : ∀ {n : Nat}, n < d.nodes.length →
      (Copy.add [] d true).flag n = some true := fun hn =>
    flag_add_right true hn
  have htarget : ∀ {i n : Nat}, (World.newProxy (World.add ⟨[], []⟩ d) d.root
      (fresh (y.map Ref.raw))).2.targetOf i = some n → i = 0 ∧ n = d.root := by
    intro i n hi
    rcases i with _ | i
    · cases hi
      exact ⟨rfl, rfl⟩
    · cases hi
  have hown : ∀ {n : Nat} {x : Node Nat P} {k : Key} {r : Ref},
      d.nodes[n]? = some x → (x.map Ref.raw).own? k = some (.ref r) →
        ∃ s, r = .raw s ∧ s < d.nodes.length ∧ x.own? k = some (.ref s) :=
    fun hx hr => own?_added (n := 0) hx hr
  refine ⟨?_, rfl, rfl⟩
  constructor
  case length =>
    show (d.nodes.map _).length = (d.nodes.map _).length
    rw [length_map, length_map]
  case source =>
    intro n x hx
    rw [hnode, hx]
    exact ⟨rfl, hflag (List.getElem?_eq_some_iff.mp hx).1⟩
  case plain =>
    intro n x node _ hn
    rw [hcell] at hn
    obtain ⟨z, -, hz⟩ := Option.map_eq_some_iff.mp hn
    cases hz
  case data =>
    intro n x hx _
    rw [hnode] at hx
    obtain ⟨z, hz, rfl⟩ := Option.map_eq_some_iff.mp hx
    refine ⟨plain_map _ (d.plain z (mem_of_getElem? hz)), ?_⟩
    intro k r hr
    obtain ⟨s, rfl, hs, -⟩ := hown hz hr
    exact ⟨s, rfl, hflag hs⟩
  case single =>
    intro m n s x x' k l hx hx' _ _ hk hl
    rw [hnode] at hx hx'
    obtain ⟨z, hz, rfl⟩ := Option.map_eq_some_iff.mp hx
    obtain ⟨z', hz', rfl⟩ := Option.map_eq_some_iff.mp hx'
    obtain ⟨s₁, heq₁, -, h₁⟩ := hown hz hk
    obtain ⟨s₂, heq₂, -, h₂⟩ := hown hz' hl
    cases heq₁
    cases heq₂
    exact d.single m n z z' k l s hz hz' h₁ h₂
  case unread =>
    intro n x node hx hn _
    rw [hnode] at hx
    rw [hcell] at hn
    obtain ⟨z, hz, rfl⟩ := Option.map_eq_some_iff.mp hx
    rw [hz] at hn
    cases hn
    rw [Node.map_map]
    rfl
  case tracks =>
    intro i n changes hi
    obtain ⟨rfl, rfl⟩ := htarget (targetOf_of_proxy hi)
    cases hi
    refine ⟨y.map Ref.raw, y.map (· + 0), ?_, ?_, ?_⟩
    · rw [hnode, hy]
      rfl
    · rw [hcell, hy]
      rfl
    · have hmap : (y.map Ref.raw).map object = y.map (· + 0) := by
        rw [Node.map_map]
        rfl
      rw [← hmap]
      exact tracks_fresh (plain_map _ (d.plain y (mem_of_getElem? hy)))
  case distinct =>
    intro i j n hi hj
    rw [(htarget hi).1, (htarget hj).1]
  case parent =>
    intro n m j x k hx _ hk hj
    obtain ⟨-, rfl⟩ := htarget hj
    rw [hnode] at hx
    obtain ⟨z, hz, rfl⟩ := Option.map_eq_some_iff.mp hx
    obtain ⟨s, heq, -, hs⟩ := hown hz hk
    cases heq
    exact absurd hs (d.root_free z (mem_of_getElem? hz) k)

theorem visible_refs {w : World P} {c : Copy P} {v : Value Ref P} {r : Ref}
    (h : ∀ s ∈ r :: valueRefs v, Visible w c s) :
    Visible w c r ∧ ∀ s, v = .ref s → Visible w c s := by
  refine ⟨h r (mem_cons_self ..), ?_⟩
  rintro s rfl
  exact h s (mem_cons_of_mem _ (mem_singleton_self s))

/-- **REQUEST BY REQUEST** the proxies and the copy stay together. -/
theorem simulates : Simulates (World.respond toLength)
    (Copy.respond toLength) Copy.Allows object (Sim d) Visible where
  injective h hr hr' := h.injective hr hr'
  sim {w c q} h hrefs hallow := by
    cases q with
    | get r k => exact (h.get toLength (hrefs r (mem_singleton_self r)) k).next.sim
    | set r k v =>
      obtain ⟨hr, hv⟩ := visible_refs hrefs
      exact (h.set toLength hr hv hallow).next.sim
    | setNew r k e =>
      exact (h.setNew toLength (hrefs r (mem_singleton_self r)) hallow).next.sim
    | deleteProperty r k =>
      exact (h.delete (hrefs r (mem_singleton_self r)) hallow).next.sim
    | has | ownKeys | getOwnPropertyDescriptor => exact h
  mono {w c q} h hrefs hallow r hr := by
    cases q with
    | get r' k =>
      have hreads := h.get toLength (hrefs r' (mem_singleton_self r')) k
      rcases hr with hr | hr
      · exact hreads.next.visible hr
      · refine hreads.visible ?_
        rcases hget : (w.get toLength r' k).1 with (p | s) | ofArray
        · simp [World.respond, Reply.refs, hget, valueRefs] at hr
        · simp [World.respond, Reply.refs, hget, valueRefs] at hr
          rw [hr]
        · simp [World.respond, Reply.refs, hget] at hr
    | set r' k v =>
      obtain ⟨hr', hv⟩ := visible_refs hrefs
      exact (h.set toLength hr' hv hallow).next.visible (hr.resolve_right not_mem_nil)
    | setNew r' k e =>
      exact (h.setNew toLength (hrefs r' (mem_singleton_self r'))
        hallow).next.visible (hr.resolve_right not_mem_nil)
    | deleteProperty r' k =>
      exact (h.delete (hrefs r' (mem_singleton_self r'))
        hallow).next.visible (hr.resolve_right not_mem_nil)
    | has | ownKeys | getOwnPropertyDescriptor => exact hr.resolve_right not_mem_nil
  replies {w c q} h hrefs hallow := by
    cases q with
    | get r k =>
      have hreads := h.get toLength (hrefs r (mem_singleton_self r)) k
      rw [World.respond, Request.map, Copy.respond, ← hreads.lookup]
      exact .lookup _
    | set r k v =>
      obtain ⟨hr, hv⟩ := visible_refs hrefs
      have hwrites := h.set toLength hr hv hallow
      rw [World.respond, Request.map, Copy.respond, hwrites.flag]
      exact .flag _
    | setNew r k e =>
      have hwrites := h.setNew toLength (hrefs r (mem_singleton_self r)) hallow
      rw [World.respond, Request.map, Copy.respond, hwrites.flag]
      exact .flag _
    | deleteProperty r k =>
      have hwrites := h.delete (hrefs r (mem_singleton_self r)) hallow
      rw [World.respond, Request.map, Copy.respond, hwrites.flag]
      exact .flag _
    | has r k =>
      rw [World.respond, Request.map, Copy.respond, h.has (hrefs r (mem_singleton_self r)) k]
      exact .flag _
    | ownKeys r => exact .keys (h.ownKeys (hrefs r (mem_singleton_self r)))
    | getOwnPropertyDescriptor r k =>
      exact .descriptor (h.descriptor (hrefs r (mem_singleton_self r)) k hallow)

/-- The answers about one name agree with what reading it gives. -/
structure Agrees (w : World P) (c : Copy P) (r : Ref) (k : Key) : Prop where
  has_of_key : k.1 ∈ w.ownKeys r → w.has r k = true
  get_of_not_has : w.has r k = false → (w.get toLength r k).1 = .value (.prim .undefined)
  key_of_get {v : Value Ref P} : (w.get toLength r k).1 = .value v →
    v ≠ .prim .undefined → k.1 ∈ w.ownKeys r
  descriptor : c.Allows (.getOwnPropertyDescriptor (object r) k) →
    ((w.getOwnPropertyDescriptor r k).isSome ↔ k.1 ∈ w.ownKeys r) ∧
      ∀ p, w.getOwnPropertyDescriptor r k = some (.prim p) →
        (w.get toLength r k).1 = .value (.prim p)

theorem get_eq_value {R : Type} {x : Node R P} {k : Key} {v : Value R P}
    (h : x.get k = .value v) (hv : v ≠ .prim .undefined) :
    x.own? k = some v := by
  rw [Node.get] at h
  rcases hx : x.own? k with _ | u <;> rw [hx] at h <;> dsimp only at h
  · split at h
    · cases h
    · cases h
      exact absurd rfl hv
  · cases h
    rfl

theorem lookup_map_prim {l : Lookup Ref P} {p : Primitive P}
    (h : l.map object = .value (.prim p)) : l = .value (.prim p) := by
  rcases l with (q | r) | ofArray <;> cases h
  rfl

/-- The answers about a name, read off the object of the copy. -/
theorem Sim.agrees {w : World P} {c : Copy P} (h : Sim d w c) {r : Ref}
    (hr : Visible w c r) (k : Key) : Agrees toLength w c r k := by
  obtain ⟨cell, hcell⟩ := (h.held hr).cell
  have hget := (h.get toLength hr k).lookup
  have hhas := h.has hr k
  have hkeys := (h.ownKeys hr).mem_iff (a := k.1)
  rw [Copy.get, hcell] at hget
  rw [hcell] at hhas hkeys
  replace hhas : w.has r k = cell.node.has k := hhas
  replace hkeys : k.1 ∈ w.ownKeys r ↔ (cell.node.own? k).isSome := hkeys.trans Node.mem_keys
  constructor
  case has_of_key =>
    intro hk
    rw [hhas, Node.has, hkeys.mp hk]
    rfl
  case get_of_not_has =>
    intro hnot
    rw [hhas, Node.has, Bool.or_eq_false_iff] at hnot
    have hnone := Option.isSome_eq_false_iff.mp hnot.1
    refine lookup_map_prim (hget.trans ?_)
    show cell.node.get k = _
    rw [Node.get, Option.isNone_iff_eq_none.mp hnone, hnot.2]
    rfl
  case key_of_get =>
    intro v hv hne
    rw [hkeys]
    rw [hv] at hget
    have hown := get_eq_value hget.symm (by
      rcases v with p | s
      · exact fun heq => hne (by cases heq; rfl)
      · exact fun heq => by cases heq)
    rw [hown]
    rfl
  case descriptor =>
    intro hallow
    have hdescriptor := h.descriptor hr k hallow
    rw [hcell, Option.bind_some] at hdescriptor
    constructor
    · rw [hkeys, ← Option.isSome_map, hdescriptor, Option.isSome_map]
    · intro p hp
      rw [hp] at hdescriptor
      refine lookup_map_prim (hget.trans ?_)
      show cell.node.get k = _
      obtain ⟨v, hv, hvp⟩ := Option.map_eq_some_iff.mp hdescriptor.symm
      rcases v with q | s <;> cases hvp
      rw [Node.get, hv]

end

/-! ## Two objects, one under the other -/

def outerKey : Key := ⟨"o", by decide⟩

def innerKey : Key := ⟨"b", by decide⟩

def nestedNodes : List (Node Nat Nat) :=
  [.object (OrderedMap.empty.set outerKey (.ref 1)),
    .object (OrderedMap.empty.set innerKey (.prim (.number 5)))]

theorem nestedNodes_ref {m : Nat} {x : Node Nat Nat} {k : Key} {r : Nat}
    (hx : nestedNodes[m]? = some x) (h : x.own? k = some (.ref r)) :
    m = 0 ∧ k = outerKey ∧ r = 1 := by
  rcases m with _ | _ | m
  · cases hx
    rw [Node.own?, get?_set] at h
    split at h
    · next heq =>
        cases h
        exact ⟨rfl, heq.symm, rfl⟩
    · cases h
  · cases hx
    rw [Node.own?, get?_set] at h
    split at h <;> cases h
  · cases hx

/-- `{ o: { b: 5 } }` -/
def nestedSource : Source Nat where
  nodes := nestedNodes
  root := 0
  root_lt := by decide
  plain x hx := by
    rcases mem_cons.mp hx with rfl | hx
    · intro k hk
      cases mem_singleton.mp hk
      decide
    · cases mem_singleton.mp hx
      intro k hk
      cases mem_singleton.mp hk
      decide
  closed x hx k r hr := by
    obtain ⟨m, hm⟩ := mem_iff_getElem?.mp hx
    obtain ⟨-, -, rfl⟩ := nestedNodes_ref hm hr
    decide
  root_free x hx k hr := by
    obtain ⟨m, hm⟩ := mem_iff_getElem?.mp hx
    cases (nestedNodes_ref hm hr).2.2
  single m n x y k l r hx hy hk hl := by
    obtain ⟨rfl, rfl, -⟩ := nestedNodes_ref hx hk
    obtain ⟨rfl, rfl, -⟩ := nestedNodes_ref hy hl
    exact ⟨rfl, rfl⟩

/-- The inner object is read and its member replaced. -/
def nestedOps : List (Request Nat Nat) :=
  [.get 0 outerKey, .set 1 innerKey (.prim (.number 7)), .has 1 innerKey,
    .getOwnPropertyDescriptor 1 innerKey]

end N8nAugmentObject
