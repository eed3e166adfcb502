import Mathlib.Data.Finset.Card
import N8n.OrderedMapProofs
import N8n.JsonTextProofs

/-! # `deepCopy` — a copy of an object graph, arrays used once

    Objects live in a heap, where the copies are appended.  The memo table
    has an entry for every plain object before its members are visited, so a
    cycle through one closes and a shared one is copied once.  An array gets
    no entry: it is copied again for each reference to it.  Where every array
    has a single reference, no second visit comes, and the copies are related
    to the objects by a partial bijection (`deepCopy_isCopy`).

    Dates are not copied: their text takes their place. -/

namespace N8nDeepCopy

open N8nOrderedMap List
open N8nJsonText (JsString ofString)

/-! ## The heap -/

inductive Primitive (P : Type) where
  | null
  | string (s : JsString)
  | other (p : P)
deriving DecidableEq

inductive Value (P : Type) where
  | prim (p : Primitive P)
  | ref (r : Nat)
deriving DecidableEq

/-- An object on the heap.  The members stand in the order in which `for in`
    lists them; the text is the one of `toJSON`, where the date is valid. -/
inductive Node (P : Type) where
  | object (members : OrderedMap String (Value P))
  | array (elements : List (Value P))
  | date (text : Option JsString)

abbrev Heap (P : Type) := List (Node P)

/-- What a value is assigned to: the next index, or a key. -/
inductive Slot where
  | next
  | key (k : String)

variable {P : Type}

def Node.slots : Node P → List (Slot × Value P)
  | .object members => members.entries.map fun p => (.key p.1, p.2)
  | .array elements => elements.map fun v => (.next, v)
  | .date _ => []

def Node.values (n : Node P) : List (Value P) := n.slots.map Prod.snd

/-- `clone[i] = value`.  Under `__proto__` nothing is stored. -/
def Node.assign (n : Node P) (slot : Slot) (v : Value P) : Node P :=
  match n, slot with
  | .array elements, .next => .array (elements ++ [v])
  | .object members, .key k =>
    if k = "__proto__" then .object members else .object (members.set k v)
  | n, _ => n

/-- `[]` or `{}` -/
def Node.blank : Node P → Node P
  | .object _ => .object .empty
  | .array _ => .array []
  | .date text => .date text

/-- `source.toJSON()` of a date -/
def toJSON : Option JsString → Primitive P
  | some text => .string text
  | none => .null

/-! ## The copy -/

/-- `hash` is the memo table. -/
structure State (P : Type) where
  heap : Heap P
  hash : OrderedMap Nat Nat

def State.assign (st : State P) (clone : Nat) (slot : Slot) (v : Value P) : State P :=
  { st with heap := st.heap.modify clone fun n => n.assign slot v }

/-- The loop over the elements or the members. -/
def copySlots (copy : Value P → State P → Option (Value P × State P))
    (clone : Nat) : List (Slot × Value P) → State P → Option (State P)
  | [], st => some st
  | (slot, v) :: rest, st =>
    match copy v st with
    | none => none
    | some (w, st) => copySlots copy clone rest (st.assign clone slot w)

/-- The state in which the members are visited: the clone is there, and the
    memo table knows it if it is no array. -/
def State.enter (st : State P) (source : Nat) (n : Node P) : State P where
  heap := st.heap ++ [n.blank]
  hash :=
    match n with
    | .object _ => st.hash.set source st.heap.length
    | _ => st.hash

theorem State.enter_heap (st : State P) (source : Nat) (n : Node P) :
    (st.enter source n).heap = st.heap ++ [n.blank] := rfl

/-- `deepCopy(source, hash)`; nothing if the depth of calls is used up. -/
def deepCopy : Nat → Value P → State P → Option (Value P × State P)
  | 0, _, _ => none
  | _ + 1, .prim p, st => some (.prim p, st)
  | fuel + 1, .ref source, st =>
    match st.heap[source]? with
    | none => none
    | some (.date text) => some (.prim (toJSON text), st)
    | some n =>
      match st.hash.get? source with
      | some clone => some (.ref clone, st)
      | none =>
        (copySlots (deepCopy fuel) st.heap.length n.slots
          (st.enter source n)).map fun st' => (.ref st.heap.length, st')

/-! ## What a copy is -/

/-- A reference is found from a value by following members and elements. -/
inductive Reaches (heap : Heap P) (v : Value P) : Nat → Prop where
  | root {r : Nat} : v = .ref r → Reaches heap v r
  | step {r q : Nat} {n : Node P} : Reaches heap v r →
      heap[r]? = some n → .ref q ∈ n.values → Reaches heap v q

/-- A value on a heap, without dangling references. -/
structure Source (P : Type) where
  heap : Heap P
  value : Value P
  closed : ∀ r, Reaches heap value r → r < heap.length

namespace Source

variable (s : Source P)

/-- The places from which an object is referenced: the root, or a place in
    an object that is found. -/
def IsUse (r : Nat) : Option (Nat × Nat) → Prop
  | none => s.value = .ref r
  | some (p, i) => Reaches s.heap s.value p
      ∧ ∃ n, s.heap[p]? = some n ∧ n.values[i]? = some (.ref r)

/-- No array is referenced from two places. -/
def SingleUse : Prop :=
  ∀ r elements, s.heap[r]? = some (.array elements) → ∀ u u', s.IsUse r u → s.IsUse r u' → u = u'

/-- No object that is found has an own member `__proto__`. -/
def PlainKeys : Prop :=
  ∀ r members, Reaches s.heap s.value r →
    s.heap[r]? = some (.object members) → "__proto__" ∉ members.keys

end Source

/-- What stands for a value in the copy: a primitive itself, a date its text,
    any other object its copy. -/
inductive Image (heap : Heap P) (φ : Nat → Option Nat) :
    Value P → Value P → Prop where
  | prim (p : Primitive P) : Image heap φ (.prim p) (.prim p)
  | date {r : Nat} {text : Option JsString} :
      heap[r]? = some (.date text) → Image heap φ (.ref r) (.prim (toJSON text))
  | copy {r c : Nat} : φ r = some c → Image heap φ (.ref r) (.ref c)

/-- The same keys in the same order, or the same number of elements, with
    images for the values. -/
inductive NodeImage (heap : Heap P) (φ : Nat → Option Nat) :
    Node P → Node P → Prop where
  | object {m m' : OrderedMap String (Value P)} :
      List.Forall₂ (fun p q => p.1 = q.1 ∧ Image heap φ p.2 q.2) m.entries m'.entries →
      NodeImage heap φ (.object m) (.object m')
  | array {l l' : List (Value P)} : List.Forall₂ (Image heap φ) l l' →
      NodeImage heap φ (.array l) (.array l')

/-- A heap holds a copy of a value: every object but the dates has one copy,
    made of the images of what it is made of; the copies are new, they are
    all that is found from the copied value, and the objects are untouched. -/
structure IsCopy (s : Source P) (w : Value P) (heap : Heap P)
    (φ : Nat → Option Nat) : Prop where
  value : Image s.heap φ s.value w
  nodes : ∀ r c, φ r = some c → ∃ n n', s.heap[r]? = some n
    ∧ heap[c]? = some n' ∧ NodeImage s.heap φ n n'
  total : ∀ r n, Reaches s.heap s.value r → s.heap[r]? = some n →
    (∀ text, n ≠ .date text) → (φ r).isSome
  injective : ∀ r q c, φ r = some c → φ q = some c → r = q
  fresh : ∀ r c, φ r = some c → s.heap.length ≤ c
  onto : ∀ c, Reaches heap w c → ∃ r, φ r = some c
  original : ∀ r, r < s.heap.length → heap[r]? = s.heap[r]?

/-! ## Steps that only add -/

variable {heap : Heap P} {φ : Nat → Option Nat} {v : Value P}

theorem Image.mono {φ' : Nat → Option Nat} (h : ∀ r c, φ r = some c → φ' r = some c)
    {w : Value P} (hi : Image heap φ v w) : Image heap φ' v w := by
  cases hi with
  | prim p => exact .prim p
  | date hdate => exact .date hdate
  | copy hcopy => exact .copy (h _ _ hcopy)

theorem Image.of_ref {c : Nat} (h : Image heap φ v (.ref c)) : ∃ r, φ r = some c := by
  cases h with
  | copy hcopy => exact ⟨_, hcopy⟩

/-- The node that the loop builds from images of the slots. -/
def Node.build (n : Node P) (slots : List (Slot × Value P)) : Node P :=
  slots.foldl (fun n p => n.assign p.1 p.2) n

theorem Node.build_append (n : Node P) (slots : List (Slot × Value P)) (slot : Slot) (v : Value P) :
    n.build (slots ++ [(slot, v)]) = (n.build slots).assign slot v := by
  rw [Node.build, foldl_append]
  rfl

abbrev SlotImages (heap : Heap P) (φ : Nat → Option Nat) :
    List (Slot × Value P) → List (Slot × Value P) → Prop :=
  List.Forall₂ fun p q => p.1 = q.1 ∧ Image heap φ p.2 q.2

theorem SlotImages.mono {φ' : Nat → Option Nat} (h : ∀ r c, φ r = some c → φ' r = some c)
    {l l' : List (Slot × Value P)} (hl : SlotImages heap φ l l') :
    SlotImages heap φ' l l' :=
  hl.imp fun _ _ hp => ⟨hp.1, hp.2.mono h⟩

theorem build_array (l : List (Value P)) (slots : List (Slot × Value P))
    (hslots : ∀ p ∈ slots, p.1 = .next) :
    (Node.array l).build slots = .array (l ++ slots.map Prod.snd) := by
  induction slots generalizing l with
  | nil => rw [map_nil, append_nil]; rfl
  | cons p rest ih =>
    rw [forall_mem_cons] at hslots
    obtain ⟨slot, v⟩ := p
    obtain rfl : slot = .next := hslots.1
    show (Node.array (l ++ [v])).build rest = _
    rw [ih _ hslots.2, append_assoc]
    rfl

theorem setEntry_of_not_mem {κ ν : Type} [DecidableEq κ] {k : κ} (v : ν)
    {l : List (κ × ν)} (h : k ∉ l.map Prod.fst) :
    setEntry k v l = l ++ [(k, v)] := by
  induction l with
  | nil => rfl
  | cons p rest ih =>
    rw [map_cons, mem_cons, not_or] at h
    rw [setEntry_cons, if_neg (Ne.symm h.1), ih h.2]
    rfl

theorem build_object (m : OrderedMap String (Value P)) (entries : List (String × Value P))
    (hproto : ∀ p ∈ entries, p.1 ≠ "__proto__")
    (hnodup : ((m.entries ++ entries).map Prod.fst).Nodup) :
    ∃ m', (Node.object m).build (entries.map fun p => (.key p.1, p.2)) = .object m'
      ∧ m'.entries = m.entries ++ entries := by
  induction entries generalizing m with
  | nil => exact ⟨m, rfl, (append_nil _).symm⟩
  | cons p rest ih =>
    obtain ⟨k, v⟩ := p
    rw [forall_mem_cons] at hproto
    have hset : (m.set k v).entries = m.entries ++ [(k, v)] := by
      refine setEntry_of_not_mem v fun hmem => ?_
      rw [map_append, map_cons] at hnodup
      exact (nodup_append.mp hnodup).2.2 k hmem k (mem_cons_self ..) rfl
    have hstep : (Node.object m).build (((k, v) :: rest).map fun p => (.key p.1, p.2))
        = (Node.object (m.set k v)).build (rest.map fun p => (.key p.1, p.2)) := by
      rw [map_cons, Node.build, foldl_cons]
      simp only [Node.assign, if_neg hproto.1]
      rfl
    rw [hstep]
    obtain ⟨m', hm', hentries⟩ := ih (m.set k v) hproto.2 (by rw [hset, append_assoc]; exact hnodup)
    exact ⟨m', hm', by rw [hentries, hset, append_assoc]; rfl⟩

variable {slots : List (Slot × Value P)}

theorem entries_of_slotImages {entries : List (String × Value P)}
    (h : SlotImages heap φ (entries.map fun p => (.key p.1, p.2)) slots) :
    ∃ entries' : List (String × Value P), slots = entries'.map (fun p => (.key p.1, p.2))
        ∧ entries'.map Prod.fst = entries.map Prod.fst
        ∧ List.Forall₂ (fun p q => p.1 = q.1 ∧ Image heap φ p.2 q.2) entries entries' := by
  induction entries generalizing slots with
  | nil =>
    cases h
    exact ⟨[], rfl, rfl, .nil⟩
  | cons p rest ih =>
    obtain ⟨⟨slot, w⟩, slots', ⟨rfl, himage⟩, hrest, rfl⟩ := forall₂_cons_left_iff.mp h
    obtain ⟨entries', rfl, hkeys, himages⟩ := ih hrest
    exact ⟨(p.1, w) :: entries', rfl, congrArg (p.1 :: ·) hkeys, .cons ⟨rfl, himage⟩ himages⟩

theorem nodeImage_build {n : Node P} (hdate : ∀ text, n ≠ .date text)
    (hproto : ∀ m, n = .object m → "__proto__" ∉ m.keys) (h : SlotImages heap φ n.slots slots) :
    NodeImage heap φ n (n.blank.build slots) := by
  cases n with
  | date text => exact absurd rfl (hdate text)
  | array l =>
    rw [SlotImages, Node.slots, forall₂_map_left_iff] at h
    have hnext : ∀ p ∈ slots, p.1 = .next := by
      clear hdate hproto
      induction h with
      | nil => exact fun p hp => by cases hp
      | cons hp _ ih => exact forall_mem_cons.mpr ⟨hp.1.symm, ih⟩
    rw [Node.blank, build_array _ _ hnext]
    exact .array (forall₂_map_right_iff.mpr (h.imp fun _ _ hp => hp.2))
  | object m =>
    obtain ⟨entries', rfl, hkeys, himages⟩ := entries_of_slotImages h
    have hplain : ∀ p ∈ entries', p.1 ≠ "__proto__" := by
      intro p hp hproto'
      refine hproto m rfl ?_
      rw [OrderedMap.keys, ← hkeys, ← hproto']
      exact mem_map_of_mem hp
    obtain ⟨m', hm', hentries⟩ := build_object .empty entries' hplain
      (by rw [OrderedMap.empty, nil_append, hkeys]; exact m.nodup)
    rw [Node.blank, hm']
    exact .object (hentries ▸ himages)

/-! ## The walk -/

section

variable {s : Source P}

/-- The objects that have no copy yet. -/
def unvisited (s : Source P) (φ : Nat → Option Nat) : Nat :=
  ((Finset.range s.heap.length).filter fun r => φ r = none).card

/-- The heap between two steps: the objects untouched, the memo table the
    copies of the plain ones, and an array copied only when every object
    that has it is copied or being copied. -/
structure Inv (s : Source P) (φ : Nat → Option Nat) (st : State P) :
    Prop where
  original : ∀ r, r < s.heap.length → st.heap[r]? = s.heap[r]?
  length : s.heap.length ≤ st.heap.length
  hash : ∀ r c, st.hash.get? r = some c ↔ φ r = some c ∧ ∃ m, s.heap[r]? = some (.object m)
  fresh : ∀ r c, φ r = some c → s.heap.length ≤ c ∧ c < st.heap.length
  injective : ∀ r q c, φ r = some c → φ q = some c → r = q
  reached : ∀ r c, φ r = some c → Reaches s.heap s.value r
  users : ∀ r l, s.heap[r]? = some (.array l) → (φ r).isSome →
    ∀ p n, Reaches s.heap s.value p → s.heap[p]? = some n → .ref r ∈ n.values → (φ p).isSome

/-- What a step from one state to another adds, for values still to be
    visited: copies that are complete, of the values and of what they
    lead to. -/
structure Adds (s : Source P) (values : List (Value P))
    (φ φ' : Nat → Option Nat) (st' : State P) : Prop where
  keeps : ∀ r c, φ r = some c → φ' r = some c
  done : ∀ r c, φ' r = some c → φ r = none → ∃ n n',
    s.heap[r]? = some n ∧ st'.heap[c]? = some n' ∧ NodeImage s.heap φ' n n'
  caused : ∀ r c, φ' r = some c → φ r = none → .ref r ∈ values
    ∨ ∃ p n, φ p = none ∧ (φ' p).isSome ∧ s.heap[p]? = some n ∧ .ref r ∈ n.values

/-- An array may be visited: it has not been, and every object that has it
    is copied or being copied. -/
def MayVisit (s : Source P) (φ : Nat → Option Nat) (v : Value P) : Prop :=
  ∀ r l, v = .ref r → s.heap[r]? = some (.array l) → φ r = none
    ∧ ∀ p n, Reaches s.heap s.value p → s.heap[p]? = some n → .ref r ∈ n.values → (φ p).isSome

/-- What a call gives, with a depth of calls for the objects not visited. -/
def CopiesFrom (s : Source P) (fuel : Nat) : Prop :=
  ∀ v φ st, Inv s φ st → (∀ r, v = .ref r → Reaches s.heap s.value r) →
    MayVisit s φ v → unvisited s φ < fuel →
    ∃ w φ' st', deepCopy fuel v st = some (w, st') ∧ Inv s φ' st'
      ∧ Adds s [v] φ φ' st' ∧ Image s.heap φ' v w
      ∧ ∀ i, i < st.heap.length → st'.heap[i]? = st.heap[i]?

variable {φ : Nat → Option Nat}

theorem unvisited_le {φ' : Nat → Option Nat} (h : ∀ r c, φ r = some c → φ' r = some c) :
    unvisited s φ' ≤ unvisited s φ := by
  refine Finset.card_le_card fun r hr => ?_
  rw [Finset.mem_filter] at hr ⊢
  refine ⟨hr.1, ?_⟩
  cases hφ : φ r with
  | none => rfl
  | some c => cases (h r c hφ).symm.trans hr.2

variable {r : Nat}

theorem unvisited_update (hr : r < s.heap.length) (hφ : φ r = none) (c : Nat) :
    unvisited s (Function.update φ r (some c)) < unvisited s φ := by
  refine Finset.card_lt_card (Finset.ssubset_iff.mpr ⟨r, ?_, ?_⟩)
  · rw [Finset.mem_filter, Function.update_self]
    exact fun hmem => by cases hmem.2
  · intro q hq
    rw [Finset.mem_insert, Finset.mem_filter] at hq
    rw [Finset.mem_filter, Finset.mem_range]
    rcases hq with rfl | ⟨hlt, hnone⟩
    · exact ⟨hr, hφ⟩
    · refine ⟨Finset.mem_range.mp hlt, ?_⟩
      by_cases hqr : q = r
      · exact hqr ▸ hφ
      · rwa [Function.update_of_ne hqr] at hnone

variable {l : List (Value P)} {p : Nat} {n : Node P}

section

variable (h : s.SingleUse) (hr : s.heap[r]? = some (.array l))
include h hr

theorem Source.SingleUse.parent {q : Nat}
    {m : Node P} (hp : Reaches s.heap s.value p) (hn : s.heap[p]? = some n)
    (hrn : .ref r ∈ n.values) (hq : Reaches s.heap s.value q)
    (hm : s.heap[q]? = some m) (hrm : .ref r ∈ m.values) : p = q := by
  obtain ⟨i, hi, hin⟩ := getElem_of_mem hrn
  obtain ⟨j, hj, hjm⟩ := getElem_of_mem hrm
  have huse := h r l hr (some (p, i)) (some (q, j))
    ⟨hp, n, hn, by rw [getElem?_eq_getElem hi, hin]⟩
    ⟨hq, m, hm, by rw [getElem?_eq_getElem hj, hjm]⟩
  exact congrArg Prod.fst (Option.some.inj huse)

theorem Source.SingleUse.position (hp : Reaches s.heap s.value p) (hn : s.heap[p]? = some n)
    {before after : List (Value P)}
    (hvalues : n.values = before ++ .ref r :: after) :
    .ref r ∉ after := by
  intro hmem
  obtain ⟨j, hj, hjr⟩ := getElem_of_mem hmem
  have hfirst : n.values[before.length]? = some (.ref r) := by
    rw [hvalues, getElem?_append_right (Nat.le_refl _), Nat.sub_self]
    rfl
  have hsecond : n.values[before.length + (j + 1)]? = some (.ref r) := by
    rw [hvalues, getElem?_append_right (Nat.le_add_right _ _),
      Nat.add_sub_cancel_left, getElem?_cons_succ, getElem?_eq_getElem hj, hjr]
  have huse := h r l hr (some (p, before.length))
    (some (p, before.length + (j + 1))) ⟨hp, n, hn, hfirst⟩ ⟨hp, n, hn, hsecond⟩
  have hindex := congrArg Prod.snd (Option.some.inj huse)
  omega

theorem Source.SingleUse.root
    (hroot : s.value = .ref r) (hp : Reaches s.heap s.value p) (hn : s.heap[p]? = some n) :
    .ref r ∉ n.values := by
  intro hmem
  obtain ⟨i, hi, hir⟩ := getElem_of_mem hmem
  have huse := h r l hr none (some (p, i)) hroot ⟨hp, n, hn, by rw [getElem?_eq_getElem hi, hir]⟩
  cases huse

end

theorem Adds.refl (values : List (Value P)) (φ : Nat → Option Nat)
    (st : State P) : Adds s values φ φ st where
  keeps _ _ h := h
  done r c h hnone := by
    rw [hnone] at h
    cases h
  caused r c h hnone := by
    rw [hnone] at h
    cases h

theorem Inv.assign {st : State P} (h : Inv s φ st)
    {c : Nat} (hc : s.heap.length ≤ c) (slot : Slot) (v : Value P) :
    Inv s φ (st.assign c slot v) where
  original r hr := by
    rw [State.assign, getElem?_modify_ne _ _ (by omega)]
    exact h.original r hr
  length := by
    rw [State.assign, length_modify]
    exact h.length
  hash := h.hash
  fresh r c' hr := by
    rw [State.assign, length_modify]
    exact h.fresh r c' hr
  injective := h.injective
  reached := h.reached
  users := h.users

theorem NodeImage.mono {heap : Heap P} {φ' : Nat → Option Nat}
    (h : ∀ r c, φ r = some c → φ' r = some c) {n' : Node P}
    (hi : NodeImage heap φ n n') : NodeImage heap φ' n n' := by
  cases hi with
  | object hm => exact .object (hm.imp fun _ _ hp => ⟨hp.1, hp.2.mono h⟩)
  | array hl => exact .array (hl.imp fun _ _ hv => hv.mono h)

/-- **THE LOOP**: the clone is built from images of all slots, and nothing
    else that was on the heap changes. -/
theorem copySlots_spec (huse : s.SingleUse) {fuel : Nat} (hcopy : CopiesFrom s fuel)
    {g c : Nat} (hg : Reaches s.heap s.value g) (hn : s.heap[g]? = some n)
    (rest : List (Slot × Value P)) :
    ∀ {before pairs : List (Slot × Value P)} {φ : Nat → Option Nat}
      {st : State P},
      n.slots = before ++ rest → Inv s φ st → φ g = some c →
      st.heap[c]? = some (n.blank.build pairs) →
      SlotImages s.heap φ before pairs →
      (∀ r l, s.heap[r]? = some (.array l) → (φ r).isSome → .ref r ∉ rest.map Prod.snd) →
      unvisited s φ < fuel →
      ∃ φ' st' pairs', copySlots (deepCopy fuel) c rest st = some st'
        ∧ Inv s φ' st' ∧ Adds s (rest.map Prod.snd) φ φ' st'
        ∧ st'.heap[c]? = some (n.blank.build pairs')
        ∧ SlotImages s.heap φ' n.slots pairs'
        ∧ ∀ i, i < st.heap.length → i ≠ c → st'.heap[i]? = st.heap[i]? := by
  induction rest with
  | nil =>
    intro before pairs φ st hslots hinv hφ hheap himages _ _
    rw [append_nil] at hslots
    exact ⟨φ, st, pairs, rfl, hinv, .refl _ _ _, hheap, hslots ▸ himages, fun _ _ _ => rfl⟩
  | cons p rest ih =>
    obtain ⟨slot, v⟩ := p
    intro before pairs φ st hslots hinv hφ hheap himages hrest hfuel
    have hvalues : n.values = before.map Prod.snd ++ v :: rest.map Prod.snd := by
      rw [Node.values, hslots, map_append, map_cons]
    have hmem : v ∈ n.values := by
      rw [hvalues]
      exact mem_append_right _ (mem_cons_self ..)
    have hreach : ∀ r, v = .ref r → Reaches s.heap s.value r := fun r hr => .step hg hn (hr ▸ hmem)
    have hmay : MayVisit s φ v := by
      intro r l hr harray
      constructor
      · by_contra hsome
        exact hrest r l harray (Option.isSome_iff_ne_none.mpr hsome) (hr ▸ mem_cons_self ..)
      · intro q m hq hm hrm
        rw [huse.parent harray hq hm hrm hg hn (hr ▸ hmem), hφ]
        rfl
    obtain ⟨w, φ₁, st₁, hrun, hinv₁, hadds₁, himage, hkept₁⟩ := hcopy v φ st hinv hreach hmay hfuel
    have hφ₁ : φ₁ g = some c := hadds₁.keeps g c hφ
    obtain ⟨hcfresh, hclt⟩ := hinv.fresh g c hφ
    have hinv₂ := hinv₁.assign hcfresh slot w
    have hheap₂ : (st₁.assign c slot w).heap[c]? = some (n.blank.build (pairs ++ [(slot, w)])) := by
      rw [State.assign, getElem?_modify_eq, hkept₁ c hclt, hheap, Node.build_append]
      rfl
    have himages₂ : SlotImages s.heap φ₁ (before ++ [(slot, v)]) (pairs ++ [(slot, w)]) :=
      rel_append (himages.mono hadds₁.keeps) (.cons ⟨rfl, himage⟩ .nil)
    -- an array that the call has visited stands at no later place
    have hrest₂ : ∀ r l, s.heap[r]? = some (.array l) → (φ₁ r).isSome →
        .ref r ∉ rest.map Prod.snd := by
      intro r l harray hsome hlater
      cases hbefore : φ r with
      | some c' =>
        exact hrest r l harray (by rw [hbefore]; rfl) (mem_cons_of_mem _ hlater)
      | none =>
        obtain ⟨c', hc'⟩ := Option.isSome_iff_exists.mp hsome
        have hrn : .ref r ∈ n.values := by
          rw [hvalues]
          exact mem_append_right _ (mem_cons_of_mem _ hlater)
        rcases hadds₁.caused r c' hc' hbefore with
          hhere | ⟨q, m, hq, hq₁, hm, hrm⟩
        · obtain rfl := mem_singleton.mp hhere
          exact huse.position harray hg hn hvalues hlater
        · obtain ⟨d, hd⟩ := Option.isSome_iff_exists.mp hq₁
          have hqg := huse.parent harray (hinv₁.reached q d hd) hm hrm hg hn hrn
          rw [hqg, hφ] at hq
          cases hq
    obtain ⟨φ₂, st₂, pairs₂, hrun₂, hinv₃, hadds₂, hheap₃, himages₃, hkept₂⟩ :=
      ih (by rw [hslots, append_assoc]; rfl) hinv₂ hφ₁ hheap₂ himages₂
        hrest₂ (Nat.lt_of_le_of_lt (unvisited_le hadds₁.keeps) hfuel)
    have hlen₂ : (st₁.assign c slot w).heap.length = st₁.heap.length := length_modify ..
    refine ⟨φ₂, st₂, pairs₂, ?_, hinv₃, ⟨?_, ?_, ?_⟩, hheap₃, himages₃, ?_⟩
    · rw [copySlots, hrun]
      exact hrun₂
    · exact fun r d hr => hadds₂.keeps r d (hadds₁.keeps r d hr)
    · intro r d hr hnone
      cases hmid : φ₁ r with
      | none => exact hadds₂.done r d hr hmid
      | some d' =>
        obtain rfl := Option.some.inj ((hadds₂.keeps r d' hmid).symm.trans hr)
        obtain ⟨m, m', hm, hm', hnode⟩ := hadds₁.done r d' hmid hnone
        have hdc : d' ≠ c := by
          rintro rfl
          rw [hinv₁.injective r g d' hmid hφ₁, hφ] at hnone
          cases hnone
        refine ⟨m, m', hm, ?_, hnode.mono hadds₂.keeps⟩
        rw [hkept₂ d' (hlen₂ ▸ (hinv₁.fresh r d' hmid).2) hdc,
          State.assign, getElem?_modify_ne _ _ (Ne.symm hdc), hm']
    · intro r d hr hnone
      cases hmid : φ₁ r with
      | none =>
        rcases hadds₂.caused r d hr hmid with
          hlater | ⟨q, m, hq, hq₂, hm, hrm⟩
        · exact .inl (mem_cons_of_mem _ hlater)
        · refine .inr ⟨q, m, ?_, hq₂, hm, hrm⟩
          by_contra hsome
          obtain ⟨e, he⟩ := Option.ne_none_iff_exists'.mp hsome
          rw [hadds₁.keeps q e he] at hq
          cases hq
      | some d' =>
        rcases hadds₁.caused r d' hmid hnone with
          hhere | ⟨q, m, hq, hq₁, hm, hrm⟩
        · exact .inl (mem_cons.mpr (.inl (mem_singleton.mp hhere)))
        · obtain ⟨e, he⟩ := Option.isSome_iff_exists.mp hq₁
          exact .inr ⟨q, m, hq, by rw [hadds₂.keeps q e he]; rfl, hm, hrm⟩
    · intro i hi hic
      have hi₁ : i < st₁.heap.length := by
        by_contra hge
        have hkept := hkept₁ i hi
        rw [getElem?_eq_none (Nat.not_lt.mp hge), getElem?_eq_getElem hi] at hkept
        cases hkept
      rw [hkept₂ i (hlen₂ ▸ hi₁) hic, State.assign,
        getElem?_modify_ne _ _ (Ne.symm hic), hkept₁ i hi]

theorem update_keeps (hnone : φ r = none)
    (c : Nat) : ∀ q d, φ q = some d → Function.update φ r (some c) q = some d := by
  intro q d hq
  rw [Function.update_of_ne]
  · exact hq
  · rintro rfl
    rw [hnone] at hq
    cases hq

/-- Making room for a copy. -/
theorem Inv.enter {st : State P} (h : Inv s φ st) (hr : Reaches s.heap s.value r)
    (hn : s.heap[r]? = some n) (hnone : φ r = none) (hmay : MayVisit s φ (.ref r)) :
    Inv s (Function.update φ r (some st.heap.length)) (st.enter r n) where
  original q hq := by
    rw [State.enter_heap, getElem?_append_left (Nat.lt_of_lt_of_le hq h.length)]
    exact h.original q hq
  length := by
    rw [State.enter_heap, length_append]
    exact Nat.le_add_right_of_le h.length
  hash q c := by
    by_cases hqr : q = r
    · subst hqr
      rw [Function.update_self]
      cases n with
      | object m =>
        show (st.hash.set q st.heap.length).get? q = some c ↔ _
        rw [OrderedMap.get?_set, if_pos rfl]
        exact ⟨fun heq => ⟨heq, m, hn⟩, And.left⟩
      | array l =>
        show st.hash.get? q = some c ↔ _
        rw [h.hash, hnone, hn]
        exact ⟨fun heq => (by cases heq.1), fun ⟨_, m, hm⟩ => by cases hm⟩
      | date text =>
        show st.hash.get? q = some c ↔ _
        rw [h.hash, hnone, hn]
        exact ⟨fun heq => (by cases heq.1), fun ⟨_, m, hm⟩ => by cases hm⟩
    · rw [Function.update_of_ne hqr, ← h.hash]
      cases n with
      | object m =>
        show (st.hash.set r st.heap.length).get? q = some c ↔ _
        rw [OrderedMap.get?_set, if_neg (Ne.symm hqr)]
      | array l => exact Iff.rfl
      | date text => exact Iff.rfl
  fresh q c hq := by
    rw [State.enter_heap, length_append, length_singleton]
    by_cases hqr : q = r
    · subst hqr
      rw [Function.update_self] at hq
      cases hq
      exact ⟨h.length, Nat.lt_succ_self _⟩
    · rw [Function.update_of_ne hqr] at hq
      exact ⟨(h.fresh q c hq).1, Nat.lt_succ_of_lt (h.fresh q c hq).2⟩
  injective q q' c hq hq' := by
    have hnew : ∀ p, p ≠ r → φ p = some c → c ≠ st.heap.length :=
      fun p _ hp => Nat.ne_of_lt (h.fresh p c hp).2
    by_cases hqr : q = r <;> by_cases hqr' : q' = r
    · rw [hqr, hqr']
    · rw [hqr, Function.update_self] at hq
      rw [Function.update_of_ne hqr'] at hq'
      exact absurd (Option.some.inj hq).symm (hnew q' hqr' hq')
    · rw [hqr', Function.update_self] at hq'
      rw [Function.update_of_ne hqr] at hq
      exact absurd (Option.some.inj hq').symm (hnew q hqr hq)
    · rw [Function.update_of_ne hqr] at hq
      rw [Function.update_of_ne hqr'] at hq'
      exact h.injective q q' c hq hq'
  reached q c hq := by
    by_cases hqr : q = r
    · exact hqr ▸ hr
    · rw [Function.update_of_ne hqr] at hq
      exact h.reached q c hq
  users q l hq hsome p m hp hm hqm := by
    have hp : (φ p).isSome := by
      by_cases hqr : q = r
      · exact (hmay q l (hqr ▸ rfl) hq).2 p m hp hm hqm
      · rw [Function.update_of_ne hqr] at hsome
        exact h.users q l hq hsome p m hp hm hqm
    obtain ⟨d, hd⟩ := Option.isSome_iff_exists.mp hp
    rw [update_keeps hnone _ p d hd]
    rfl

theorem deepCopy_ref (fuel : Nat) {st : State P}
    (hst : st.heap[r]? = some n) (hdate : ∀ text, n ≠ .date text) :
    deepCopy (fuel + 1) (.ref r) st
      = match st.hash.get? r with
        | some clone => some (.ref clone, st)
        | none =>
          (copySlots (deepCopy fuel) st.heap.length n.slots
            (st.enter r n)).map fun st' => (.ref st.heap.length, st') := by
  rw [deepCopy, hst]
  cases n with
  | date text => exact absurd rfl (hdate text)
  | object m => rfl
  | array l => rfl

/-- **THE CALL**: every call that may be made copies what it is given. -/
theorem copiesFrom (huse : s.SingleUse) (hkeys : s.PlainKeys) (fuel : Nat) : CopiesFrom s fuel := by
  induction fuel with
  | zero => exact fun _ _ _ _ _ _ h => absurd h (Nat.not_lt_zero _)
  | succ fuel ih =>
    intro v φ st hinv hreach hmay hfuel
    cases v with
    | prim p => exact ⟨.prim p, φ, st, rfl, hinv, .refl _ _ _, .prim p, fun _ _ => rfl⟩
    | ref r =>
      have hr := hreach r rfl
      have hlt := s.closed r hr
      have hn : s.heap[r]? = some s.heap[r] := getElem?_eq_getElem hlt
      generalize s.heap[r] = n at hn
      have hst : st.heap[r]? = some n := (hinv.original r hlt).trans hn
      by_cases hdate : ∃ text, n = .date text
      · obtain ⟨text, rfl⟩ := hdate
        refine ⟨.prim (toJSON text), φ, st, ?_, hinv, .refl _ _ _, .date hn, fun _ _ => rfl⟩
        rw [deepCopy, hst]
      · have hdate : ∀ text, n ≠ .date text := fun text h => hdate ⟨text, h⟩
        rw [deepCopy_ref fuel hst hdate]
        cases hhash : st.hash.get? r with
        | some clone =>
          exact ⟨.ref clone, φ, st, rfl, hinv, .refl _ _ _,
            .copy ((hinv.hash r clone).mp hhash).1, fun _ _ => rfl⟩
        | none =>
          have hnone : φ r = none := by
            cases n with
            | date text => exact absurd rfl (hdate text)
            | array l => exact (hmay r l rfl hn).1
            | object m =>
              by_contra hsome
              obtain ⟨c, hc⟩ := Option.ne_none_iff_exists'.mp hsome
              rw [(hinv.hash r c).mpr ⟨hc, m, hn⟩] at hhash
              cases hhash
          have hheap : (st.enter r n).heap[st.heap.length]? = some (n.blank.build []) := by
            rw [State.enter_heap, getElem?_concat_length]
            rfl
          -- no array that is visited stands in the object itself
          have hrest : ∀ q l, s.heap[q]? = some (.array l) →
              (Function.update φ r (some st.heap.length) q).isSome →
              .ref q ∉ n.slots.map Prod.snd := by
            intro q l harray hsome hqn
            have hvisited : (φ r).isSome := by
              by_cases hqr : q = r
              · exact (hmay q l (hqr ▸ rfl) harray).2 r n hr hn hqn
              · rw [Function.update_of_ne hqr] at hsome
                exact hinv.users q l harray hsome r n hr hn hqn
            rw [hnone] at hvisited
            cases hvisited
          obtain ⟨φ', st', pairs, hrun, hinv', hadds, hbuilt, himages, hkept⟩ :=
            copySlots_spec huse ih hr hn n.slots (nil_append _).symm
              (hinv.enter hr hn hnone hmay) (Function.update_self ..)
              hheap .nil hrest (Nat.lt_of_lt_of_le
                (unvisited_update hlt hnone _) (Nat.le_of_lt_succ hfuel))
          have hφ' : φ' r = some st.heap.length := hadds.keeps r _ (Function.update_self ..)
          refine ⟨.ref st.heap.length, φ', st', by rw [hrun]; rfl, hinv',
            ⟨?_, ?_, ?_⟩, .copy hφ', ?_⟩
          · exact fun q d hq =>
              hadds.keeps q d (update_keeps hnone _ q d hq)
          · intro q d hq hqnone
            by_cases hqr : q = r
            · subst hqr
              obtain rfl := Option.some.inj (hφ'.symm.trans hq)
              refine ⟨n, _, hn, hbuilt, nodeImage_build hdate ?_ himages⟩
              rintro m rfl
              exact hkeys q m hr hn
            · exact hadds.done q d hq (by rw [Function.update_of_ne hqr, hqnone])
          · intro q d hq hqnone
            by_cases hqr : q = r
            · exact .inl (hqr ▸ mem_cons_self ..)
            · rcases hadds.caused q d hq
                (by rw [Function.update_of_ne hqr, hqnone]) with
                hhere | ⟨p, m, hp, hp', hm, hqm⟩
              · exact .inr ⟨r, n, hnone, by rw [hφ']; rfl, hn, hhere⟩
              · refine .inr ⟨p, m, ?_, hp', hm, hqm⟩
                by_contra hsome
                obtain ⟨e, he⟩ := Option.ne_none_iff_exists'.mp hsome
                rw [update_keeps hnone _ p e he] at hp
                cases hp
          · intro i hi
            rw [hkept i (by
                rw [State.enter_heap, length_append]
                exact Nat.lt_add_right _ hi) (Nat.ne_of_lt hi),
              State.enter_heap, getElem?_append_left hi]

theorem Inv.initial (s : Source P) :
    Inv s (fun _ => none) ⟨s.heap, .empty⟩ where
  original _ _ := rfl
  length := Nat.le_refl _
  hash r c := by
    constructor
    · intro h
      cases h
    · rintro ⟨h, -⟩
      cases h
  fresh r c h := by cases h
  injective r q c h := by cases h
  reached r c h := by cases h
  users r l _ h := by cases h

end

/-! ## More depth -/

theorem copySlots_mono {copy copy' : Value P → State P → Option (Value P × State P)}
    (hcopy : ∀ v st result, copy v st = some result → copy' v st = some result) {c : Nat}
    {st st' : State P} (h : copySlots copy c slots st = some st') :
    copySlots copy' c slots st = some st' := by
  induction slots generalizing st with
  | nil => exact h
  | cons p rest ih =>
    rw [copySlots] at h ⊢
    cases hrun : copy p.2 st with
    | none => rw [hrun] at h; cases h
    | some result =>
      rw [hrun] at h
      rw [hcopy _ _ _ hrun]
      exact ih h

theorem deepCopy_succ {fuel : Nat} {st : State P}
    {result : Value P × State P} (h : deepCopy fuel v st = some result) :
    deepCopy (fuel + 1) v st = some result := by
  induction fuel generalizing v st result with
  | zero => cases h
  | succ fuel ih =>
    cases v with
    | prim p => exact h
    | ref r =>
      cases hst : st.heap[r]? with
      | none =>
        rw [deepCopy, hst] at h
        cases h
      | some n =>
        by_cases hdate : ∃ text, n = .date text
        · obtain ⟨text, rfl⟩ := hdate
          rw [deepCopy, hst] at h ⊢
          exact h
        · have hdate : ∀ text, n ≠ .date text :=
            fun text hn => hdate ⟨text, hn⟩
          rw [deepCopy_ref _ hst hdate] at h ⊢
          split at h
          · exact h
          · obtain ⟨st', hrun, rfl⟩ := Option.map_eq_some_iff.mp h
            rw [copySlots_mono (fun v st result => ih) hrun]
            rfl

theorem deepCopy_mono {fuel fuel' : Nat} (hle : fuel ≤ fuel')
    {st : State P} {result : Value P × State P}
    (h : deepCopy fuel v st = some result) :
    deepCopy fuel' v st = some result := by
  induction hle with
  | refl => exact h
  | step _ ih => exact deepCopy_succ ih

/-! ## The copy of a graph -/

theorem NodeImage.values {n n' : Node P} (h : NodeImage heap φ n n') :
    List.Forall₂ (Image heap φ) n.values n'.values := by
  cases h with
  | object hm =>
    simp only [Node.values, Node.slots, map_map]
    exact forall₂_map_left_iff.mpr (forall₂_map_right_iff.mpr (hm.imp fun _ _ hp => hp.2))
  | array hl =>
    simp only [Node.values, Node.slots, map_map]
    exact forall₂_map_left_iff.mpr (forall₂_map_right_iff.mpr hl)

theorem IsCopy.of_nodes {s : Source P} {w : Value P} (hvalue : Image s.heap φ s.value w)
    (hnodes : ∀ r c, φ r = some c → ∃ n n', s.heap[r]? = some n
      ∧ heap[c]? = some n' ∧ NodeImage s.heap φ n n') :
    (∀ r n, Reaches s.heap s.value r → s.heap[r]? = some n →
        (∀ text, n ≠ .date text) → (φ r).isSome)
      ∧ ∀ c, Reaches heap w c → ∃ r, φ r = some c := by
  have himage : ∀ {r n w}, Image s.heap φ (.ref r) w →
      s.heap[r]? = some n → (∀ text, n ≠ .date text) → (φ r).isSome := by
    intro r n w hi hn hdate
    cases hi with
    | date htext => exact absurd (Option.some.inj (hn.symm.trans htext)) (hdate _)
    | copy hcopy => rw [hcopy]; rfl
  constructor
  · intro r n hreach hn hdate
    induction hreach generalizing n with
    | root hroot => exact himage (hroot ▸ hvalue) hn hdate
    | @step r q m hr hm hq ih =>
      have hrdate : ∀ text, m ≠ .date text := by
        rintro text rfl
        cases hq
      obtain ⟨c, hc⟩ := Option.isSome_iff_exists.mp (ih m hm hrdate)
      obtain ⟨m', n', hm', -, hnode⟩ := hnodes r c hc
      obtain rfl := Option.some.inj (hm.symm.trans hm')
      obtain ⟨i, hi, hiq⟩ := getElem_of_mem hq
      have hvalues := hnode.values
      have hpair := hvalues.get hi (hvalues.length_eq ▸ hi)
      rw [get_eq_getElem, hiq] at hpair
      exact himage hpair hn hdate
  · intro c hreach
    induction hreach with
    | root hroot => exact (hroot ▸ hvalue).of_ref
    | @step c d n' hc hn' hd ih =>
      obtain ⟨r, hr⟩ := ih
      obtain ⟨n, m', -, hm', hnode⟩ := hnodes r c hr
      obtain rfl := Option.some.inj (hn'.symm.trans hm')
      obtain ⟨i, hi, hid⟩ := getElem_of_mem hd
      have hvalues := hnode.values
      have hpair := hvalues.get (hvalues.length_eq ▸ hi) hi
      rw [get_eq_getElem, get_eq_getElem, hid] at hpair
      exact hpair.of_ref

/-- **COPY**: where no array has two references and no object an own
    `__proto__`, the function returns, whatever the cycles, and what it
    returns is a copy of the graph with the dates as texts. -/
theorem deepCopy_isCopy (s : Source P) (huse : s.SingleUse) (hkeys : s.PlainKeys) :
    ∃ w st φ, (∀ fuel, s.heap.length < fuel → deepCopy fuel s.value ⟨s.heap, .empty⟩ = some (w, st))
      ∧ IsCopy s w st.heap φ := by
  have hmay : MayVisit s (fun _ => none) s.value := by
    intro r l hr harray
    refine ⟨rfl, fun p n hp hn hrn => ?_⟩
    exact absurd hrn (huse.root harray hr hp hn)
  have hunvisited : unvisited s (fun _ => none) < s.heap.length + 1 :=
    Nat.lt_succ_of_le ((Finset.card_filter_le _ _).trans (Nat.le_of_eq (Finset.card_range _)))
  obtain ⟨w, φ, st, hrun, hinv, hadds, hvalue, -⟩ :=
    copiesFrom huse hkeys (s.heap.length + 1) s.value _ _ (.initial s)
      (fun r hr => .root hr) hmay hunvisited
  have hnodes := fun r c hr => hadds.done r c hr rfl
  obtain ⟨htotal, honto⟩ := IsCopy.of_nodes hvalue hnodes
  exact ⟨w, st, φ, fun fuel hfuel => deepCopy_mono hfuel hrun,
    { value := hvalue
      nodes := hnodes
      total := htotal
      injective := hinv.injective
      fresh := fun r c hr => (hinv.fresh r c hr).1
      onto := honto
      original := hinv.original }⟩

/-! ## A cycle and a date -/

theorem reaches_lt (hroot : ∀ r, v = .ref r → r < heap.length)
    (hheap : ∀ n ∈ heap, ∀ r, .ref r ∈ n.values → r < heap.length) {r : Nat}
    (h : Reaches heap v r) : r < heap.length := by
  cases h with
  | root hr => exact hroot r hr
  | step _ hn hr => exact hheap _ (mem_of_getElem? hn) r hr

/-- An object that holds itself and an array, which holds the object and a
    date. -/
def circularHeap : Heap Nat :=
  [.object (OrderedMap.set (OrderedMap.set .empty "circular" (.ref 0)) "arr" (.ref 1)),
    .array [.ref 0, .ref 2], .date (some (ofString "2022-11-02T11:39:32.201Z"))]

def circular : Source Nat where
  heap := circularHeap
  value := .ref 0
  closed r hr := by
    refine reaches_lt (fun q hq => ?_) (fun n hn q hq => ?_) hr
    · cases hq
      decide
    · have hall : ∀ n ∈ circularHeap, ∀ v ∈ n.values,
          v = .ref 0 ∨ v = .ref 1 ∨ v = .ref 2 := by decide
      rcases hall n hn _ hq with h | h | h <;> cases h <;> decide

theorem singleUse_circular : circular.SingleUse := by
  have harr : ∀ u, circular.IsUse 1 u → u = some (0, 1) := by
    rintro (_ | ⟨p, i⟩) huse
    · cases huse
    · obtain ⟨-, n, hn, hi⟩ := huse
      match p, hn with
      | 0, hn =>
        cases hn
        match i, hi with
        | 0, hi => cases hi
        | 1, _ => rfl
        | i + 2, hi => cases hi
      | 1, hn =>
        cases hn
        match i, hi with
        | 0, hi => cases hi
        | 1, hi => cases hi
        | i + 2, hi => cases hi
      | 2, hn =>
        cases hn
        cases hi
      | p + 3, hn => cases hn
  intro r l hr u u' hu hu'
  match r, hr with
  | 0, hr => cases hr
  | 1, _ => rw [harr u hu, harr u' hu']
  | 2, hr => cases hr
  | r + 3, hr => cases hr

theorem plainKeys_circular : circular.PlainKeys := by
  intro r m _ hr
  match r, hr with
  | 0, hr =>
    cases hr
    decide
  | 1, hr => cases hr
  | 2, hr => cases hr
  | r + 3, hr => cases hr

theorem deepCopy_isCopy_circular :
    ∃ w st φ, (∀ fuel, 3 < fuel → deepCopy fuel (.ref 0) ⟨circularHeap, .empty⟩ = some (w, st))
      ∧ IsCopy circular w st.heap φ :=
  deepCopy_isCopy circular singleUse_circular plainKeys_circular

/-- The copy of a date is its text, and no object at all. -/
theorem not_object_date : (∃ st, deepCopy 1 (.ref 0)
        ⟨[(.date (some (ofString "1970-01-01T00:00:00.000Z")) : Node Nat)], .empty⟩
        = some (.prim (.string (ofString "1970-01-01T00:00:00.000Z")), st))
      ∧ ∀ fuel c st, deepCopy fuel (.ref 0)
        ⟨[(.date (some (ofString "1970-01-01T00:00:00.000Z")) : Node Nat)],
          .empty⟩ ≠ some (.ref c, st) := by
  refine ⟨⟨_, rfl⟩, fun fuel c st h => ?_⟩
  cases fuel with
  | zero => cases h
  | succ fuel => cases h

end N8nDeepCopy
