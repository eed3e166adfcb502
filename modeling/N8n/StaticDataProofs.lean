import N8n.RunProofs
import N8n.OrderedMapProofs

/-! # Static data — what its changed flag knows about

    The static data of a workflow is an observable: proxies around its
    objects set one flag on the root, and `saveStaticData` saves the data
    when the flag is set.  The data is a graph of objects, and a write
    arrives either through a proxy or at the object itself, past the proxy
    or because it was assigned without one.

    With `ignoreEmptyOnFirstChild` an empty object under a new key of the
    root is no change.  Everything else that is written through the
    observable reaches the flag (`kept_of_reported`), as long as no save
    clears it for data it has not seen. -/

namespace N8nStaticData

open N8nRun N8nOrderedMap List

/-! ## Objects -/

/-- The objects of the data the observable was created from, by their paths,
    and all others. -/
inductive Address where
  | initial (path : List String)
  | allocated (array : Bool) (n : Nat)
deriving DecidableEq

/-- What a variable or a property can hold of an object: the observable that
    `create` returned, an observable with that one as its parent, or the
    object itself. -/
inductive Reference where
  | root
  | observable (address : Address)
  | object (address : Address)
deriving DecidableEq

inductive Value where
  | undefined
  | null
  | primitive (value : String)
  | reference (r : Reference)
deriving DecidableEq

/-- An object; an array has its indices as keys, and is shortened by deleting
    the last ones. -/
structure DataObject where
  array : Bool
  properties : OrderedMap String Value

abbrev Heap := Address → DataObject

def rootAddress : Address := .initial []

def Reference.address : Reference → Address
  | .root => rootAddress
  | .observable address => address
  | .object address => address

def DataObject.get (object : DataObject) (name : String) : Value :=
  (object.properties.get? name).getD .undefined

namespace Heap

def set (heap : Heap) (address : Address) (name : String) (value : Value) : Heap :=
  Function.update heap address
    { heap address with
      properties := (heap address).properties.set name value }

/-- `Reflect.deleteProperty`. -/
def delete (heap : Heap) (address : Address) (name : String) : Heap :=
  Function.update heap address
    { heap address with
      properties := (heap address).properties.delete name }

end Heap

/-! ## The data -/

/-- What the data has at a place. -/
inductive Leaf where
  | null
  | primitive (value : String)
  | object
  | array
deriving DecidableEq

/-- The data, read along paths of names. -/
abbrev Data := List String → Option Leaf

/-- The value that reading the names one after the other gives. -/
def valueAt (heap : Heap) : Value → List String → Value
  | value, [] => value
  | .reference r, name :: rest => valueAt heap ((heap r.address).get name) rest
  | _, _ :: _ => .undefined

def leaf (heap : Heap) : Value → Option Leaf
  | .undefined => none
  | .null => some .null
  | .primitive value => some (.primitive value)
  | .reference r => some (if (heap r.address).array then .array else .object)

def dataOf (heap : Heap) : Data := fun path =>
  leaf heap (valueAt heap (.reference .root) path)

/-- `JSON.stringify` comes to an end. -/
def Serialisable (data : Data) : Prop :=
  ∃ n, ∀ path : List String, n ≤ path.length → data path = none

/-! ## Creating the observable -/

/-- Data as the database has it, the flag not among its names. -/
inductive Json where
  | null
  | primitive (value : String)
  | object (array : Bool) (entries : List (String × Json))

namespace Json

def member : Json → String → Option Json
  | .object _ entries, name => (entries.find? fun entry => entry.1 = name).map Prod.snd
  | _, _ => none

def at? : Json → List String → Option Json
  | json, [] => some json
  | json, name :: rest => (json.member name).bind fun child => child.at? rest

end Json

/-- A child of the target, which `create` makes observable if it is an
    object. -/
def createChild (path : List String) : Json → Value
  | .null => .null
  | .primitive value => .primitive value
  | .object _ _ => .reference (.observable (.initial path))

def createProperties (path : List String) :
    List (String × Json) → OrderedMap String Value
  | [] => .empty
  | (name, child) :: rest =>
    (createProperties path rest).set name (createChild (path ++ [name]) child)

def createObject (path : List String) : Json → DataObject
  | .object array entries => { array, properties := createProperties path entries }
  | _ => { array := false, properties := .empty }

def createHeap (target : Json) : Heap
  | .initial path => createObject path ((target.at? path).getD (.object false []))
  | .allocated array _ => { array, properties := .empty }

/-- The static data of a workflow with the saves that are awaited, each with
    what it has serialised. -/
structure StaticData where
  ignoreEmptyOnFirstChild : Bool
  workflowIdValid : Bool
  heap : Heap
  dataChanged : Bool
  persisted : Data
  saves : List (Option Data)

/-- The observable for an object that is persisted. -/
def create (target : List (String × Json))
    (ignoreEmptyOnFirstChild workflowIdValid : Bool) : StaticData :=
  { ignoreEmptyOnFirstChild, workflowIdValid
    heap := createHeap (.object false target)
    dataChanged := false
    persisted := dataOf (createHeap (.object false target))
    saves := [] }

namespace StaticData

/-! ## Traps -/

def inheritedNames : List String :=
  ["constructor", "hasOwnProperty", "isPrototypeOf", "propertyIsEnumerable",
    "toLocaleString", "toString", "valueOf", "__defineGetter__",
    "__defineSetter__", "__lookupGetter__", "__lookupSetter__"]

/-- Whether the root has nothing under the name, and is told to ignore empty
    objects there. -/
def firstChild (s : StaticData) (name : String) : Bool :=
  s.ignoreEmptyOnFirstChild && ((s.heap rootAddress).get name = .undefined && name ∉ inheritedNames)

/-- `Object.keys(value).length === 0`, for an object. -/
def isEmpty (s : StaticData) : Value → Bool
  | .reference r => (s.heap r.address).properties.keys.isEmpty
  | _ => false

/-- `reference[name] = value`.  On the root, `Object.keys(null)` throws. -/
def write (s : StaticData) (r : Reference) (name : String) (value : Value) : StaticData :=
  let heap := s.heap.set r.address name value
  match r with
  | .object _ => { s with heap }
  | .observable _ => { s with heap, dataChanged := true }
  | .root =>
    if s.firstChild name then
      if value = .null then s
      else if s.isEmpty value then { s with heap }
      else { s with heap, dataChanged := true }
    else { s with heap, dataChanged := true }

/-- `delete reference[name]`. -/
def delete (s : StaticData) (r : Reference) (name : String) : StaticData :=
  let heap := s.heap.delete r.address name
  match r with
  | .object _ => { s with heap }
  | .observable _ | .root => { s with heap, dataChanged := true }

/-! ## Saving -/

/-- The call of `saveStaticData`. -/
def save (s : StaticData) : StaticData :=
  if s.dataChanged && s.workflowIdValid then
    { s with saves := s.saves ++ [none] }
  else s

/-- The query of an awaited save is built from the data. -/
def serialise (s : StaticData) (i : Nat) : StaticData :=
  { s with saves := s.saves.set i (some (dataOf s.heap)) }

/-- The data is saved, and the flag cleared. -/
def saved (s : StaticData) (i : Nat) : StaticData :=
  match s.saves[i]? with
  | some (some data) =>
    { s with
      persisted := data
      dataChanged := false
      saves := s.saves.eraseIdx i }
  | _ => s

def saveFailed (s : StaticData) (i : Nat) : StaticData :=
  { s with saves := s.saves.eraseIdx i }

end StaticData

/-! ## Runs -/

inductive Event where
  | write (r : Reference) (name : String) (value : Value)
  | delete (r : Reference) (name : String)
  | save
  | serialise (i : Nat)
  | saved (i : Nat)
  | saveFailed (i : Nat)
deriving DecidableEq

/-- Neither the flag nor the prototype is a key of the data. -/
def Enabled (s : StaticData) : Event → Prop
  | .write _ name _ => name ∉ ["__dataChanged", "__proto__"]
  | .delete _ name => name ∉ ["__dataChanged", "__proto__"]
  | .save => True
  | .serialise i => s.saves[i]? = some none ∧ Serialisable (dataOf s.heap)
  | .saved i => ∃ data, s.saves[i]? = some (some data)
  | .saveFailed i => i < s.saves.length

def next (s : StaticData) : Event → StaticData
  | .write r name value => s.write r name value
  | .delete r name => s.delete r name
  | .save => s.save
  | .serialise i => s.serialise i
  | .saved i => s.saved i
  | .saveFailed i => s.saveFailed i

def Step (s : StaticData) (e : Event) (s' : StaticData) : Prop := Enabled s e ∧ s' = next s e

/-! ## Changes that are kept -/

/-- There is nothing under the name, or an object without anything in it. -/
def EmptyAt (data : Data) (name : String) : Prop :=
  (data [name] = none ∨ data [name] = some .object
      ∨ data [name] = some .array)
    ∧ ∀ child, data [name, child] = none

/-- The same data, but for empty objects directly under the root. -/
structure SameButEmpty (data data' : Data) : Prop where
  deeper : ∀ path : List String, path.length ≠ 1 → data path = data' path
  names : ∀ name, data [name] = data' [name] ∨ (EmptyAt data name ∧ EmptyAt data' name)

/-- What counts as the same data. -/
def Same (ignoreEmptyOnFirstChild : Bool) (data data' : Data) : Prop :=
  if ignoreEmptyOnFirstChild then SameButEmpty data data' else data = data'

/-- The data is as it was saved last, or the flag is set. -/
def Kept (s : StaticData) : Prop :=
  ¬ Same s.ignoreEmptyOnFirstChild (dataOf s.heap) s.persisted → s.dataChanged = true

/-- The condition on a step.  What is written past the observables changes
    nothing while the flag is not set, the empty root is not put into
    itself, and a save that ends has saved what the data still is. -/
def Reported (s : StaticData) : Event → Prop
  | .write (.object address) name value => s.dataChanged = true
      ∨ Same s.ignoreEmptyOnFirstChild (dataOf (s.heap.set address name value)) (dataOf s.heap)
  | .write .root _ (.reference r) => s.dataChanged = true
      ∨ s.isEmpty (.reference r) = false ∨ r.address ≠ rootAddress
  | .delete (.object address) name => s.dataChanged = true
      ∨ Same s.ignoreEmptyOnFirstChild (dataOf (s.heap.delete address name)) (dataOf s.heap)
  | .saved i => ∀ data, s.saves[i]? = some (some data) →
      Same s.ignoreEmptyOnFirstChild (dataOf s.heap) data
  | _ => True

/-! ## Reading along a path -/

section

variable {heap : Heap}

theorem valueAt_cons (heap : Heap) (r : Reference) (name : String) (rest : List String) :
    valueAt heap (.reference r) (name :: rest)
      = valueAt heap ((heap r.address).get name) rest := rfl

theorem valueAt_undefined (heap : Heap) (path : List String) :
    valueAt heap .undefined path = .undefined := by
  cases path <;> rfl

theorem valueAt_append (heap : Heap) (value : Value) (p q : List String) :
    valueAt heap value (p ++ q) = valueAt heap (valueAt heap value p) q := by
  induction p generalizing value with
  | nil => rfl
  | cons name rest ih =>
    cases value with
    | reference r => exact ih _
    | undefined | null | primitive _ => exact (valueAt_undefined heap q).symm

theorem valueAt_congr {r r' : Reference} (h : r.address = r'.address)
    {path : List String} (hpath : path ≠ []) :
    valueAt heap (.reference r) path = valueAt heap (.reference r') path := by
  cases path with
  | nil => exact absurd rfl hpath
  | cons name rest => rw [valueAt_cons, valueAt_cons, h]

theorem valueAt_flatten_replicate {p : List String} {r : Reference}
    (hp : p ≠ []) (hr : r.address = rootAddress)
    (h : valueAt heap (.reference .root) p = .reference r) (m : Nat) :
    valueAt heap (.reference .root) (List.replicate (m + 1) p).flatten = .reference r := by
  induction m with
  | zero =>
    rw [replicate_one, flatten_singleton]
    exact h
  | succ m ih =>
    rw [replicate_succ, flatten_cons, valueAt_append, h]
    have hne : (List.replicate (m + 1) p).flatten ≠ [] := by
      intro hnil
      exact hp (append_eq_nil_iff.mp hnil).1
    exact (valueAt_congr hr hne).trans ih

theorem Serialisable.address_ne_root (hs : Serialisable (dataOf heap))
    {p : List String} {r : Reference} (hp : p ≠ [])
    (h : valueAt heap (.reference .root) p = .reference r) :
    r.address ≠ rootAddress := by
  obtain ⟨n, hn⟩ := hs
  intro hr
  have hlength : n ≤ (List.replicate (n + 1) p).flatten.length := by
    rw [length_flatten, map_replicate, sum_replicate_nat]
    have hpos : 0 < p.length := length_pos_iff.mpr hp
    have := Nat.le_mul_of_pos_right (n + 1) hpos
    omega
  have hnone := hn _ hlength
  rw [dataOf, valueAt_flatten_replicate hp hr h] at hnone
  cases hnone

end

/-! ## The same data -/

variable {name : String}

theorem EmptyAt.of_deeper {data data' : Data}
    (h : EmptyAt data name) (heq : data' [name] = data [name])
    (hdeeper : ∀ path : List String, path.length ≠ 1 →
      data' path = data path) : EmptyAt data' name := by
  refine ⟨heq ▸ h.1, ?_⟩
  intro child
  rw [hdeeper [name, child] (by simp)]
  exact h.2 child

namespace SameButEmpty

variable {data data' data'' : Data}

theorem refl (data : Data) : SameButEmpty data data := ⟨fun _ _ => rfl, fun _ => .inl rfl⟩

theorem symm (h : SameButEmpty data data') : SameButEmpty data' data := by
  constructor
  · intro path hpath
    exact (h.deeper path hpath).symm
  · intro name
    rcases h.names name with heq | ⟨hempty, hempty'⟩
    · exact .inl heq.symm
    · exact .inr ⟨hempty', hempty⟩

theorem trans (h : SameButEmpty data data') (h' : SameButEmpty data' data'') :
    SameButEmpty data data'' := by
  have hdeeper := fun path hpath =>
    (h.deeper path hpath).trans (h'.deeper path hpath)
  refine ⟨hdeeper, ?_⟩
  intro name
  -- What is the same as something empty is empty.
  rcases h.names name with heq | ⟨hempty, hmid⟩
  · rcases h'.names name with heq' | ⟨hmid, hempty⟩
    · exact .inl (heq.trans heq')
    · exact .inr ⟨hmid.of_deeper heq h.deeper, hempty⟩
  · rcases h'.names name with heq' | ⟨-, hempty'⟩
    · exact .inr ⟨hempty, hmid.of_deeper heq'.symm h'.symm.deeper⟩
    · exact .inr ⟨hempty, hempty'⟩

end SameButEmpty

section

variable {ignore : Bool} {data data' data'' : Data}

theorem Same.refl (ignore : Bool) (data : Data) : Same ignore data data := by
  cases ignore with
  | false => exact Eq.refl data
  | true => exact SameButEmpty.refl data

theorem Same.trans (h : Same ignore data data')
    (h' : Same ignore data' data'') : Same ignore data data'' := by
  cases ignore with
  | false => exact Eq.trans h h'
  | true => exact SameButEmpty.trans h h'

theorem Same.serialisable (h : Same ignore data data')
    (hs : Serialisable data') : Serialisable data := by
  obtain ⟨n, hn⟩ := hs
  cases ignore with
  | false =>
    refine ⟨n, fun path hpath => ?_⟩
    rw [show data = data' from h]
    exact hn path hpath
  | true =>
    have hsame : SameButEmpty data data' := h
    refine ⟨n + 2, fun path hpath => ?_⟩
    rw [hsame.deeper path (by omega)]
    exact hn path (by omega)

end

/-! ## Writing to the root -/

section

variable {heap : Heap} {name : String} {value : Value}

theorem set_ne {address address' : Address} (h : address' ≠ address) :
    heap.set address name value address' = heap address' :=
  Function.update_of_ne h ..

theorem array_set (address address' : Address) :
    (heap.set address name value address').array = (heap address').array := by
  rw [Heap.set, Function.update_apply]
  split
  · rename_i heq
    rw [heq]
  · rfl

theorem leaf_set (address : Address) (v : Value) :
    leaf (heap.set address name value) v = leaf heap v := by
  cases v with
  | reference r =>
    show some (if _ then _ else _) = _
    rw [array_set]
    rfl
  | undefined | null | primitive _ => rfl

theorem get_set (address : Address) (other : String) :
    (heap.set address name value address).get other
      = if name = other then value else (heap address).get other := by
  rw [Heap.set, Function.update_self, DataObject.get, OrderedMap.get?_set]
  split <;> rfl

theorem valueAt_set_of_avoids {v : Value} {path : List String}
    (h : ∀ p r, p <+: path → valueAt heap v p = .reference r → r.address ≠ rootAddress) :
    valueAt (heap.set rootAddress name value) v path = valueAt heap v path := by
  induction path generalizing v with
  | nil => rfl
  | cons key rest ih =>
    cases v with
    | reference r =>
      have hr := h [] r (List.nil_prefix ..) rfl
      rw [valueAt_cons, valueAt_cons, set_ne hr]
      refine ih fun p r' hp hv => ?_
      exact h (key :: p) r' (cons_prefix_cons.mpr ⟨rfl, hp⟩) hv
    | undefined | null | primitive _ => rfl

/-- An empty object under a new name of the root is seen under that name
    only. -/
theorem dataOf_set_empty {r : Reference} (hs : Serialisable (dataOf heap))
    (hfirst : (heap rootAddress).get name = .undefined)
    (hempty : (heap r.address).properties.keys = []) (hroot : r.address ≠ rootAddress) :
    SameButEmpty (dataOf (heap.set rootAddress name (.reference r))) (dataOf heap) := by
  have hother : ∀ key rest, key ≠ name →
      dataOf (heap.set rootAddress name (.reference r)) (key :: rest)
        = dataOf heap (key :: rest) := by
    intro key rest hkey
    have hget : (heap.set rootAddress name (.reference r) rootAddress).get key
        = (heap rootAddress).get key := by
      rw [get_set, if_neg (Ne.symm hkey)]
    have hvalue : valueAt (heap.set rootAddress name (.reference r))
        (.reference .root) (key :: rest) = valueAt heap (.reference .root) (key :: rest) := by
      show valueAt _ ((heap.set _ _ _ rootAddress).get key) rest = _
      rw [hget]
      refine valueAt_set_of_avoids fun p r' _ hv => ?_
      exact hs.address_ne_root (cons_ne_nil key p) hv
    rw [dataOf, dataOf, hvalue, leaf_set]
  have hbefore : ∀ rest, dataOf heap (name :: rest) = none := by
    intro rest
    show leaf heap (valueAt heap ((heap rootAddress).get name) rest) = none
    rw [hfirst, valueAt_undefined]
    rfl
  have hafter : ∀ rest, dataOf (heap.set rootAddress name (.reference r)) (name :: rest)
        = leaf heap (valueAt (heap.set rootAddress name (.reference r)) (.reference r) rest) := by
    intro rest
    rw [dataOf, valueAt_cons, leaf_set]
    show leaf heap (valueAt _ ((heap.set _ _ _ rootAddress).get name) rest) = _
    rw [get_set, if_pos rfl]
  have hbelow : ∀ child rest, dataOf (heap.set rootAddress name (.reference r))
        (name :: child :: rest) = none := by
    intro child rest
    have hnone : (heap r.address).get child = .undefined := by
      rw [DataObject.get, OrderedMap.get?_eq_none.mpr]
      · rfl
      · rw [hempty]
        exact not_mem_nil
    rw [hafter, valueAt_cons, set_ne hroot, hnone, valueAt_undefined]
    rfl
  constructor
  · intro path hpath
    rcases path with _ | ⟨key, _ | ⟨child, rest⟩⟩
    · rfl
    · exact absurd rfl hpath
    · by_cases hkey : key = name
      · subst hkey
        rw [hbelow, hbefore]
      · exact hother key (child :: rest) hkey
  · intro key
    by_cases hkey : key = name
    · subst hkey
      refine .inr ⟨⟨.inr ?_, fun child => hbelow child []⟩,
        .inl (hbefore []), fun child => hbefore [child]⟩
      rw [hafter]
      show some (if _ then _ else _) = _ ∨ some (if _ then _ else _) = _
      split
      · exact .inr rfl
      · exact .inl rfl
    · exact .inl (hother key [] hkey)

end

/-! ## The data the observable starts with -/

theorem get?_createProperties (path : List String)
    (entries : List (String × Json)) (name : String) :
    (createProperties path entries).get? name
      = ((entries.find? fun entry => entry.1 = name).map Prod.snd).map
          (createChild (path ++ [name])) := by
  induction entries with
  | nil => rfl
  | cons entry rest ih =>
    obtain ⟨key, child⟩ := entry
    rw [createProperties, OrderedMap.get?_set]
    by_cases hkey : key = name
    · subst hkey
      rw [if_pos rfl, find?_cons_of_pos (by simp)]
      rfl
    · rw [if_neg hkey, ih, find?_cons_of_neg (by simpa using hkey)]

theorem Json.at?_append (json : Json) (p q : List String) :
    json.at? (p ++ q) = (json.at? p).bind fun child => child.at? q := by
  induction p generalizing json with
  | nil => rfl
  | cons name rest ih =>
    show (json.member name).bind _ = ((json.member name).bind _).bind _
    rw [Option.bind_assoc]
    refine Option.bind_congr fun child _ => ?_
    exact ih child

theorem Json.sizeOf_member {json child : Json}
    (h : json.member name = some child) : sizeOf child < sizeOf json := by
  cases json with
  | null => cases h
  | primitive value => cases h
  | object array entries =>
    obtain ⟨entry, hfind, rfl⟩ := Option.map_eq_some_iff.mp h
    have hmem := sizeOf_lt_of_mem (mem_of_find?_eq_some hfind)
    have hsnd : sizeOf entry.2 < sizeOf entry := by
      obtain ⟨key, value⟩ := entry
      show sizeOf value < _
      rw [Prod.mk.sizeOf_spec]
      omega
    rw [Json.object.sizeOf_spec]
    omega

theorem leaf_valueAt_createHeap {target json : Json} {pre rest : List String}
    (hat : target.at? pre = some json) (hsize : sizeOf json ≤ rest.length) :
    leaf (createHeap target) (valueAt (createHeap target) (createChild pre json) rest) = none := by
  induction rest generalizing pre json with
  | nil =>
    have hpos : 0 < sizeOf json := by
      cases json with
      | null =>
        exact Nat.one_pos
      | primitive value =>
        rw [Json.primitive.sizeOf_spec]
        omega
      | object array entries =>
        rw [Json.object.sizeOf_spec]
        omega
    exact absurd hsize (Nat.not_le.mpr hpos)
  | cons name rest ih =>
    cases json with
    | null => rfl
    | primitive value => rfl
    | object array entries =>
      have hget : (createHeap target (.initial pre)).get name
          = (((Json.object array entries).member name).map
              (createChild (pre ++ [name]))).getD .undefined := by
        rw [createHeap, hat]
        show ((createProperties pre entries).get? name).getD _ = _
        rw [get?_createProperties]
        rfl
      show leaf _ (valueAt _ ((createHeap target (.initial pre)).get name) rest) = none
      rw [hget]
      rcases hm : (Json.object array entries).member name with _ | child
      · rw [Option.map_none, Option.getD_none, valueAt_undefined]
        rfl
      · refine ih ?_ ?_
        · rw [Json.at?_append, hat, Option.bind_some, Json.at?, hm]
          rfl
        · have := Json.sizeOf_member hm
          rw [length_cons] at hsize
          omega

theorem serialisable_createHeap (entries : List (String × Json)) :
    Serialisable (dataOf (createHeap (.object false entries))) := by
  refine ⟨sizeOf (Json.object false entries) + 1, fun path hpath => ?_⟩
  have hne : path ≠ [] := by
    rintro rfl
    exact absurd hpath (by simp)
  have hroot : valueAt (createHeap (.object false entries)) (.reference .root) path
        = valueAt (createHeap (.object false entries))
            (.reference (.observable rootAddress)) path := by
    refine valueAt_congr ?_ hne
    rfl
  rw [dataOf, hroot]
  have hat : (Json.object false entries).at? [] = some (.object false entries) := rfl
  exact leaf_valueAt_createHeap hat (by omega)

/-! ## What every reported change leaves behind -/

/-- The invariant of the runs whose changes are all reported. -/
structure Sound (s : StaticData) : Prop where
  same : s.dataChanged = false → Same s.ignoreEmptyOnFirstChild (dataOf s.heap) s.persisted
  persisted : Serialisable s.persisted
  saves : ∀ data, some data ∈ s.saves → Serialisable data

theorem sound_create (target : List (String × Json)) (ignore valid : Bool) :
    Sound (create target ignore valid) where
  same := fun _ => Same.refl ..
  persisted := serialisable_createHeap target
  saves := fun _ hmem => absurd hmem not_mem_nil

namespace Sound

variable {s : StaticData}

section

variable (h : Sound s)
include h

theorem kept : Kept s := by
  intro hne
  rcases hflag : s.dataChanged with _ | _
  · exact absurd (h.same hflag) hne
  · rfl

theorem serialisable (hflag : s.dataChanged = false) : Serialisable (dataOf s.heap) :=
  (h.same hflag).serialisable h.persisted

theorem changed (heap : Heap) :
    Sound { s with heap, dataChanged := true } where
  same := fun hflag => absurd hflag (by simp)
  persisted := h.persisted
  saves := h.saves

theorem unreported {heap : Heap} (hsame : s.dataChanged = true
      ∨ Same s.ignoreEmptyOnFirstChild (dataOf heap) (dataOf s.heap)) :
    Sound { s with heap } where
  same := by
    intro hflag
    rcases hsame with hset | hsame
    · exact absurd (hset.symm.trans hflag) (by simp)
    · exact hsame.trans (h.same hflag)
  persisted := h.persisted
  saves := h.saves

theorem write {r : Reference} {name : String} {value : Value}
    (hreported : Reported s (.write r name value)) :
    Sound (s.write r name value) := by
  cases r with
  | object address => exact h.unreported hreported
  | observable address => exact h.changed _
  | root =>
    rw [StaticData.write]
    split
    · rename_i hfirst
      split
      · exact h
      · split
        · rename_i hempty
          -- Only an object is empty, and the flag is all that is left out.
          rcases value with _ | _ | _ | r
          · cases hempty
          · cases hempty
          · cases hempty
          · refine h.unreported ?_
            rcases hreported with hset | hfull | hroot
            · exact .inl hset
            · exact absurd (hempty.symm.trans hfull) (by simp)
            · rcases hflag : s.dataChanged with _ | _
              · obtain ⟨hignore, hnew, -⟩ :
                    s.ignoreEmptyOnFirstChild = true
                      ∧ (s.heap rootAddress).get name = .undefined
                      ∧ name ∉ StaticData.inheritedNames := by
                  simpa [StaticData.firstChild] using hfirst
                refine .inr ?_
                rw [hignore]
                exact dataOf_set_empty (h.serialisable hflag) hnew (isEmpty_iff.mp hempty) hroot
              · exact .inl rfl
        · exact h.changed _
    · exact h.changed _

theorem delete {r : Reference} {name : String} (hreported : Reported s (.delete r name)) :
    Sound (s.delete r name) := by
  cases r with
  | object address => exact h.unreported hreported
  | observable address => exact h.changed _
  | root => exact h.changed _

theorem save : Sound s.save := by
  rw [StaticData.save]
  split
  · refine ⟨h.same, h.persisted, fun data hmem => ?_⟩
    rcases mem_append.mp hmem with hold | hnew
    · exact h.saves data hold
    · exact absurd (mem_singleton.mp hnew) (by simp)
  · exact h

theorem serialise {i : Nat} (hs : Serialisable (dataOf s.heap)) : Sound (s.serialise i) := by
  refine ⟨h.same, h.persisted, fun data hmem => ?_⟩
  rcases mem_or_eq_of_mem_set hmem with hold | hnew
  · exact h.saves data hold
  · rw [Option.some.inj hnew]
    exact hs

theorem saved {i : Nat} {data : Data} (hi : s.saves[i]? = some (some data))
    (hsame : Same s.ignoreEmptyOnFirstChild (dataOf s.heap) data) :
    Sound (s.saved i) := by
  rw [StaticData.saved, hi]
  refine ⟨fun _ => hsame, h.saves data (mem_of_getElem? hi), ?_⟩
  intro data' hmem
  exact h.saves data' (mem_of_mem_eraseIdx hmem)

theorem saveFailed (i : Nat) : Sound (s.saveFailed i) :=
  ⟨h.same, h.persisted, fun data hmem => h.saves data (mem_of_mem_eraseIdx hmem)⟩

theorem step {e : Event} {s' : StaticData}
    (hstep : Step s e s') (hreported : Reported s e) : Sound s' := by
  obtain ⟨henabled, rfl⟩ := hstep
  cases e with
  | write r name value => exact h.write hreported
  | delete r name => exact h.delete hreported
  | save => exact h.save
  | serialise i => exact h.serialise henabled.2
  | saved i =>
    obtain ⟨data, hi⟩ := henabled
    exact h.saved hi (hreported data hi)
  | saveFailed i => exact h.saveFailed i

end

end Sound

theorem serialisable_set_primitive {heap : Heap} {value : String}
    (hs : Serialisable (dataOf heap)) :
    Serialisable (dataOf (heap.set rootAddress name (.primitive value))) := by
  obtain ⟨n, hn⟩ := id hs
  refine ⟨n + 2, fun path hpath => ?_⟩
  rcases path with _ | ⟨key, _ | ⟨child, rest⟩⟩
  · simp at hpath
  · simp at hpath
  · rw [dataOf, valueAt_cons, leaf_set]
    show leaf heap (valueAt _ ((heap.set _ _ _ rootAddress).get key) _) = _
    rw [get_set]
    split
    · rfl
    · rw [valueAt_set_of_avoids]
      · exact hn (key :: child :: rest) (by omega)
      · intro p r _ hv
        exact hs.address_ne_root (cons_ne_nil key p) hv

theorem step_write {s : StaticData} {r : Reference}
    {value : Value} (h : name ∉ ["__dataChanged", "__proto__"]) :
    Step s (.write r name value) (next s (.write r name value)) :=
  ⟨h, rfl⟩

end N8nStaticData
