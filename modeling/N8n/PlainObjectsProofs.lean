import Mathlib.Data.String.Basic
import N8n.DirectedGraphProofs

/-! # Plain objects and arrays — members by name

    An object has the members it was given, an array has its elements by
    their index, its length, and what else is set on it by name.  Whatever a
    reference is stands as a parameter, so that the same object can be read
    with two kinds of references (`Node.own?_map`, `Node.put_map`).

    What is answered is what the language answers; an array has its length
    within the limit as a field. -/

namespace N8nPlainObjects

open N8nOrderedMap List OrderedMap
open N8nDirectedGraph (arrayIndexLimit objectPrototype)

/-! ## Values and keys -/

/-- The name of a member.  Under `__proto__` stands the prototype. -/
abbrev Key := { k : String // k ≠ "__proto__" }

inductive Primitive (P : Type) where
  | undefined
  | number (n : Nat)
  | other (p : P)

inductive Value (R P : Type) where
  | prim (p : Primitive P)
  | ref (r : R)

variable {R Q P : Type}

def Value.map (f : R → Q) : Value R P → Value Q P
  | .prim p => .prim p
  | .ref r => .ref (f r)

theorem Value.map_map {S : Type} (f : R → Q) (g : Q → S) (v : Value R P) :
    (v.map f).map g = v.map (g ∘ f) := by
  cases v <;> rfl

def Value.isUndefined : Value R P → Bool
  | .prim .undefined => true
  | _ => false

/-- The number a name spells, if it is the index of an element. -/
def arrayIndex? (k : String) : Option Nat :=
  let n := k.toList.foldl (fun n c => 10 * n + (c.toNat - '0'.toNat)) 0
  if toString n = k ∧ n < arrayIndexLimit then some n else none

/-- What a name stands for in an array. -/
inductive Slot where
  | length
  | index (i : Nat) (h : i < arrayIndexLimit)
  | named

theorem arrayIndex?_spec {k : String} {i : Nat} (h : arrayIndex? k = some i) :
    toString i = k ∧ i < arrayIndexLimit := by
  rw [arrayIndex?] at h
  split at h
  · next hn =>
      cases h
      exact hn
  · cases h

theorem arrayIndex?_toString {i : Nat} (h : i < arrayIndexLimit) :
    arrayIndex? (toString i) = some i := by
  have hread : (toString i).toList.foldl (fun n c => 10 * n + (c.toNat - '0'.toNat)) 0 = i := by
    rw [← Nat.ofDigitChars_eq_foldl, Nat.toString_eq_repr, Nat.toList_repr]
    exact Nat.ofDigitChars_ten_toDigits
  rw [arrayIndex?, hread]
  exact if_pos ⟨rfl, h⟩

def Key.slot (k : Key) : Slot :=
  if k.1 = "length" then .length
  else match h : arrayIndex? k.1 with
    | some i => .index i (arrayIndex?_spec h).2
    | none => .named

variable {k : Key}

theorem Key.slot_length : k.slot = .length ↔ k.1 = "length" := by
  rw [Key.slot]
  split
  · next h => exact iff_of_true rfl h
  · next h =>
      refine iff_of_false ?_ h
      split <;> exact nofun

theorem Key.slot_index {i : Nat} {h : i < arrayIndexLimit} :
    k.slot = .index i h → k.1 = toString i := by
  rw [Key.slot]
  split
  · exact nofun
  · split
    · next hi =>
        intro heq
        cases heq
        exact (arrayIndex?_spec hi).1.symm
    · exact nofun

theorem Key.slot_toString {i : Nat} (hk : toString i = k.1)
    (h : i < arrayIndexLimit) : ∃ h, k.slot = .index i h := by
  have hindex : arrayIndex? k.1 = some i := hk ▸ arrayIndex?_toString h
  have hlength : k.1 ≠ "length" := by
    intro heq
    have hnone : arrayIndex? "length" = none := by decide
    rw [heq, hnone] at hindex
    cases hindex
  refine ⟨h, ?_⟩
  rw [Key.slot, if_neg hlength]
  split
  · next hj =>
      cases hindex.symm.trans hj
      rfl
  · next hnone => cases hindex.symm.trans hnone

theorem Key.ne_of_slot {l : Key} {s t : Slot} (hl : l.slot = s)
    (hk : k.slot = t) (h : s ≠ t) : l ≠ k := by
  rintro rfl
  exact h (hl.symm.trans hk)

/-! ## Members by name -/

section

variable (f : R → Q) (m : OrderedMap Key (Value R P))

theorem map_set (k : Key) (v : Value R P) : (m.map fun _ => Value.map f).set k (v.map f)
      = (m.set k v).map fun _ => Value.map f := by
  rw [OrderedMap.set, OrderedMap.map, OrderedMap.mk.injEq]
  show setEntry k (v.map f) (m.entries.map _) = (setEntry k v m.entries).map _
  induction m.entries with
  | nil => rfl
  | cons p rest ih =>
    rw [map_cons, setEntry_cons, setEntry_cons, ih]
    split <;> rfl

theorem map_delete (k : Key) : (m.map fun _ => Value.map f).delete k
      = (m.delete k).map fun _ => Value.map f := by
  rw [OrderedMap.delete, OrderedMap.map, OrderedMap.mk.injEq]
  exact filter_map

theorem keys_mapValues : (m.map fun _ => Value.map f).keys = m.keys := by
  rw [OrderedMap.keys, OrderedMap.map, List.map_map]
  rfl

end

theorem map_map {S : Type} (f : R → Q) (g : Q → S) (m : OrderedMap Key (Value R P)) :
    ((m.map fun _ => Value.map f).map fun _ => Value.map g)
      = m.map fun _ => Value.map (g ∘ f) := by
  rw [OrderedMap.map, OrderedMap.map, OrderedMap.map, OrderedMap.mk.injEq]
  show (m.entries.map _).map _ = _
  rw [List.map_map]
  refine congrFun (congrArg List.map (funext fun p => ?_)) _
  exact Prod.ext rfl (Value.map_map f g p.2)

theorem setEntry_same {ν : Type} {l : List (Key × ν)} {v : ν}
    (h : findKey k l = some v) : setEntry k v l = l := by
  induction l with
  | nil => cases h
  | cons p rest ih =>
    rw [findKey_cons] at h
    rw [setEntry_cons]
    split at h
    · next heq =>
        cases h
        rw [if_pos heq, ← heq]
    · next hne => rw [if_neg hne, ih h]

theorem set_same {ν : Type} {m : OrderedMap Key ν} {v : ν}
    (h : m.get? k = some v) : m.set k v = m := by
  rw [OrderedMap.set, OrderedMap.mk.injEq]
  exact setEntry_same h

/-! ## Arrays -/

/-- The elements, holes among them, and the members that are neither an
    element nor the length. -/
structure ArrayData (R P : Type) where
  elements : List (Option (Value R P))
  named : OrderedMap Key (Value R P)
  bound : elements.length ≤ arrayIndexLimit
  names : ∀ k ∈ named.keys, k.slot = .named

namespace ArrayData

variable {a b : ArrayData R P}

theorem ext' (helements : a.elements = b.elements) (hnamed : a.named = b.named) : a = b := by
  cases a
  cases b
  cases helements
  cases hnamed
  rfl

def own? (a : ArrayData R P) (k : Key) : Option (Value R P) :=
  match k.slot with
  | .length => some (.prim (.number a.elements.length))
  | .index i _ => a.elements[i]?.join
  | .named => a.named.get? k

/-- A shorter or a longer list, with holes at the end. -/
def resize (n : Nat) (l : List (Option (Value R P))) : List (Option (Value R P)) :=
  l.take n ++ List.replicate (n - l.length) none

theorem length_resize (n : Nat) (l : List (Option (Value R P))) : (resize n l).length = n := by
  rw [resize, length_append, length_take, length_replicate]
  omega

variable (toLength : P → Option Nat)

/-- The length a value assigned to `length` stands for; an object there is
    left out. -/
def lengthOf (v : Value R P) : Option { n : Nat // n ≤ arrayIndexLimit } :=
  let read : Option Nat :=
    match v with
    | .prim (.number n) => some n
    | .prim (.other p) => toLength p
    | _ => none
  match read with
  | some n => if h : n ≤ arrayIndexLimit then some ⟨n, h⟩ else none
  | none => none

theorem bound_put (a : ArrayData R P) {i : Nat} (h : i < arrayIndexLimit) (v : Value R P) :
    ((resize (max a.elements.length (i + 1)) a.elements).set i
      (some v)).length ≤ arrayIndexLimit := by
  rw [length_set, length_resize]
  exact max_le a.bound h

variable {k : Key}

theorem names_put (a : ArrayData R P) (hk : k.slot = .named)
    (v : Value R P) : ∀ l ∈ (a.named.set k v).keys, l.slot = .named := by
  intro l hl
  rcases mem_keys_set.mp hl with rfl | hl
  · exact hk
  · exact a.names l hl

/-- `a[k] = v`; nothing stands for the `RangeError` of a length. -/
def put (a : ArrayData R P) (k : Key) (v : Value R P) : Option (ArrayData R P) :=
  match hk : k.slot with
  | .length => (lengthOf toLength v).map fun n =>
    { a with
      elements := resize n.1 a.elements
      bound := (length_resize n.1 a.elements).trans_le n.2 }
  | .index i h => some
      { a with
        elements := (resize (max a.elements.length (i + 1)) a.elements).set i (some v)
        bound := bound_put a h v }
  | .named => some
      { a with named := a.named.set k v, names := names_put a hk v }

theorem bound_hole (a : ArrayData R P) (i : Nat) :
    (a.elements.set i none).length ≤ arrayIndexLimit :=
  length_set.trans_le a.bound

theorem names_remove (a : ArrayData R P) (k : Key) :
    ∀ l ∈ (a.named.delete k).keys, l.slot = .named :=
  fun l hl => a.names l (mem_keys_delete.mp hl).2

/-- `delete a[k]` -/
def remove (a : ArrayData R P) (k : Key) : Bool × ArrayData R P :=
  match k.slot with
  | .length => (false, a)
  | .index i _ =>
    (true,
      { a with elements := a.elements.set i none, bound := bound_hole a i })
  | .named => (true, { a with named := a.named.delete k, names := names_remove a k })

def indices (elements : List (Option (Value R P))) : List String :=
  elements.zipIdx.filterMap fun (v, i) => v.map fun _ => toString i

/-- `Reflect.ownKeys(a)` -/
def keys (a : ArrayData R P) : List String :=
  indices a.elements ++ "length" :: a.named.keys.map Subtype.val

theorem bound_spread (a : ArrayData R P) :
    (a.elements.map fun v => some (v.getD (.prim .undefined))).length
      ≤ arrayIndexLimit :=
  (length_map ..).trans_le a.bound

/-- `[...a]` -/
def spread (a : ArrayData R P) : ArrayData R P where
  elements := a.elements.map fun v => some (v.getD (.prim .undefined))
  named := .empty
  bound := bound_spread a
  names := nofun

theorem bound_map (f : R → Q) (a : ArrayData R P) :
    (a.elements.map (Option.map (Value.map f))).length ≤ arrayIndexLimit :=
  (length_map ..).trans_le a.bound

theorem names_map (f : R → Q) (a : ArrayData R P) :
    ∀ k ∈ (a.named.map fun _ => Value.map f).keys, k.slot = .named := by
  rw [keys_mapValues]
  exact a.names

def map (f : R → Q) (a : ArrayData R P) : ArrayData Q P where
  elements := a.elements.map (Option.map (Value.map f))
  named := a.named.map fun _ => Value.map f
  bound := bound_map f a
  names := names_map f a

theorem map_map {S : Type} (f : R → Q) (g : Q → S) (a : ArrayData R P) :
    (a.map f).map g = a.map (g ∘ f) := by
  refine ext' ?_ (N8nPlainObjects.map_map f g a.named)
  show (a.elements.map _).map _ = _
  rw [List.map_map]
  refine congrFun (congrArg List.map (funext fun v => ?_)) _
  rcases v with _ | v
  · rfl
  · exact congrArg some (Value.map_map f g v)

theorem spread_map (f : R → Q) (a : ArrayData R P) : (a.map f).spread = a.spread.map f := by
  refine ext' ?_ rfl
  show (a.elements.map _).map _ = (a.elements.map _).map _
  rw [List.map_map, List.map_map]
  refine congrFun (congrArg List.map (funext fun v => ?_)) _
  rcases v with _ | v <;> rfl

/-! ### Reading after a change -/

section

variable (f : R → Q)

theorem own?_map (a : ArrayData R P) (k : Key) :
    (a.map f).own? k = (a.own? k).map (Value.map f) := by
  rw [own?, own?]
  split
  · show some (Value.prim (.number (a.elements.map _).length)) = _
    rw [length_map]
    rfl
  · next i _ _ =>
      show (a.elements.map _)[i]?.join = _
      rw [getElem?_map]
      rcases a.elements[i]? with _ | _ | v <;> rfl
  · exact get?_map ..

theorem resize_map (n : Nat) (l : List (Option (Value R P))) :
    resize n (l.map (Option.map (Value.map f))) = (resize n l).map (Option.map (Value.map f)) := by
  rw [resize, resize, map_append, map_take, map_replicate, length_map]
  rfl

theorem lengthOf_map (v : Value R P) : lengthOf toLength (v.map f) = lengthOf toLength v := by
  rcases v with (_ | n | p) | r <;> rfl

theorem set_map (l : List (Option (Value R P))) (i : Nat) (v : Option (Value R P)) :
    (l.map (Option.map (Value.map f))).set i (v.map (Value.map f))
      = (l.set i v).map (Option.map (Value.map f)) :=
  List.map_set.symm

theorem put_map (a : ArrayData R P) (k : Key) (v : Value R P) :
    (a.map f).put toLength k (v.map f) = (a.put toLength k v).map fun a => a.map f := by
  rw [put, put]
  split
  · rw [lengthOf_map, Option.map_map]
    refine congrFun (congrArg Option.map (funext fun n => ?_)) _
    exact ext' (resize_map f ..) rfl
  · next i _ _ =>
      refine congrArg some (ext' ?_ rfl)
      show (resize (max (a.elements.map _).length (i + 1)) _).set i _ = _
      rw [length_map]
      exact (congrArg (fun l => List.set l i _) (resize_map f ..)).trans (set_map f _ i (some v))
  · exact congrArg some (ext' rfl (map_set f ..))

theorem remove_map (a : ArrayData R P) (k : Key) :
    (a.map f).remove k = ((a.remove k).1, (a.remove k).2.map f) := by
  rw [remove, remove]
  split
  · rfl
  · next i _ _ => exact congrArg (Prod.mk true) (ext' (set_map f a.elements i none) rfl)
  · exact congrArg (Prod.mk true) (ext' rfl (map_delete f ..))

theorem indices_map (l : List (Option (Value R P))) :
    indices (l.map (Option.map (Value.map f))) = indices l := by
  rw [indices, indices, zipIdx_map, filterMap_map]
  refine congrFun (congrArg List.filterMap (funext fun p => ?_)) _
  rcases p with ⟨_ | v, i⟩ <;> rfl

theorem keys_map (a : ArrayData R P) : (a.map f).keys = a.keys := by
  show indices (a.elements.map _) ++ "length" :: _ = _
  rw [indices_map, keys]
  exact congrArg (fun l => _ ++ "length" :: List.map _ l) (keys_mapValues f a.named)

end

theorem join_resize {n j : Nat} {l : List (Option (Value R P))}
    {v : Value R P} (h : (resize n l)[j]?.join = some v) :
    l[j]?.join = some v := by
  rw [resize, getElem?_append] at h
  split at h
  · next hj =>
      rw [length_take] at hj
      rwa [getElem?_take_of_lt (by omega)] at h
  · rw [getElem?_replicate] at h
    split at h <;> cases h

variable {l : Key}

theorem own?_put {v : Value R P} {r : R}
    (h : a.put toLength k v = some b) (hr : b.own? l = some (.ref r)) :
    l = k ∧ v = .ref r ∨ l ≠ k ∧ a.own? l = some (.ref r) := by
  rw [put] at h
  rw [own?] at hr ⊢
  split at h
  · next hk =>
      obtain ⟨n, -, rfl⟩ := Option.map_eq_some_iff.mp h
      split at hr
      · cases hr
      · next hl => exact .inr ⟨Key.ne_of_slot hl hk (by simp), join_resize hr⟩
      · next hl => exact .inr ⟨Key.ne_of_slot hl hk (by simp), hr⟩
  · next i hi hk =>
      cases h
      split at hr
      · cases hr
      · next j hj hl =>
          by_cases hij : i = j
          · subst hij
            have heq : l = k := Subtype.ext ((Key.slot_index hl).trans (Key.slot_index hk).symm)
            rw [getElem?_set_self (by rw [length_resize]; omega)] at hr
            exact .inl ⟨heq, Option.some.inj hr⟩
          · rw [getElem?_set_ne hij] at hr
            refine .inr ⟨Key.ne_of_slot hl hk ?_, join_resize hr⟩
            intro heq
            exact hij (Slot.index.inj heq).symm
      · next hl => exact .inr ⟨Key.ne_of_slot hl hk (by simp), hr⟩
  · next hk =>
      cases h
      split at hr
      · cases hr
      · next hl => exact .inr ⟨Key.ne_of_slot hl hk (by simp), hr⟩
      · rw [get?_set] at hr
        split at hr
        · next heq => exact .inl ⟨heq.symm, Option.some.inj hr⟩
        · next hne => exact .inr ⟨Ne.symm hne, hr⟩

theorem own?_remove {r : R} (hr : (a.remove k).2.own? l = some (.ref r)) :
    l ≠ k ∧ a.own? l = some (.ref r) := by
  rw [remove] at hr
  rw [own?]
  split at hr
  · next hk =>
      rw [own?] at hr
      split at hr
      · cases hr
      · next hl => exact ⟨Key.ne_of_slot hl hk (by simp), hr⟩
      · next hl => exact ⟨Key.ne_of_slot hl hk (by simp), hr⟩
  · next i hi hk =>
      rw [own?] at hr
      split at hr
      · cases hr
      · next j hj hl =>
          by_cases hij : i = j
          · subst hij
            rw [getElem?_set_self'] at hr
            rcases hi : a.elements[i]? with _ | v <;> rw [hi] at hr <;>
              cases hr
          · rw [getElem?_set_ne hij] at hr
            refine ⟨Key.ne_of_slot hl hk ?_, hr⟩
            intro heq
            exact hij (Slot.index.inj heq).symm
      · next hl => exact ⟨Key.ne_of_slot hl hk (by simp), hr⟩
  · next hk =>
      rw [own?] at hr
      split at hr
      · cases hr
      · next hl => exact ⟨Key.ne_of_slot hl hk (by simp), hr⟩
      · rw [get?_delete] at hr
        split at hr
        · cases hr
        · next hne => exact ⟨hne, hr⟩

theorem own?_put_named {v : Value R P}
    (h : a.put toLength k v = some b) (hl : l.slot = .named) (hne : l ≠ k) :
    b.own? l = a.own? l := by
  have hnamed : ∀ c : ArrayData R P, c.own? l = c.named.get? l := by
    intro c
    rw [own?]
    split <;> rename_i hs <;> cases hl.symm.trans hs
    rfl
  rw [hnamed, hnamed]
  rw [put] at h
  split at h
  · obtain ⟨n, -, rfl⟩ := Option.map_eq_some_iff.mp h
    rfl
  · cases h
    rfl
  · cases h
    exact (get?_set ..).trans (if_neg (Ne.symm hne))

theorem own?_remove_named (hl : l.slot = .named) (hnone : a.own? l = none) :
    (a.remove k).2.own? l = none := by
  have hnamed : ∀ c : ArrayData R P, c.own? l = c.named.get? l := by
    intro c
    rw [own?]
    split <;> rename_i hs <;> cases hl.symm.trans hs
    rfl
  rw [hnamed] at hnone ⊢
  rw [remove]
  split
  · exact hnone
  · exact hnone
  · show (a.named.delete k).get? l = none
    rw [get?_delete, hnone]
    exact ite_self _

theorem put_same {r : R} (h : a.own? k = some (.ref r)) : a.put toLength k (.ref r) = some a := by
  rw [own?] at h
  rw [put]
  split at h
  · cases h
  · next i hi hk =>
      have hget : a.elements[i]? = some (some (.ref r)) := by
        rcases he : a.elements[i]? with _ | v <;> rw [he] at h
        · cases h
        · exact congrArg some h
      have hsize : max a.elements.length (i + 1) = a.elements.length :=
        max_eq_left (List.getElem?_eq_some_iff.mp hget).1
      split <;> rename_i hk'
      · cases hk.symm.trans hk'
      · cases hk.symm.trans hk'
        refine congrArg some (ext' ?_ rfl)
        show (resize (max _ _) a.elements).set i _ = _
        rw [hsize, resize, List.take_length, Nat.sub_self, List.replicate_zero, List.append_nil]
        obtain ⟨hlt, hval⟩ := List.getElem?_eq_some_iff.mp hget
        rw [← hval]
        exact List.set_getElem_self hlt
      · cases hk.symm.trans hk'
  · next hk =>
      split <;> rename_i hk'
      · cases hk.symm.trans hk'
      · cases hk.symm.trans hk'
      · exact congrArg some (ext' rfl (set_same h))

theorem isSome_bound {i : Nat} (h : (a.elements[i]?.join).isSome) : i < arrayIndexLimit := by
  rcases hget : a.elements[i]? with _ | v <;> rw [hget] at h
  · cases h
  · exact (List.getElem?_eq_some_iff.mp hget).1.trans_le a.bound

theorem mem_indices {l : List (Option (Value R P))} {s : String} :
    s ∈ indices l ↔ ∃ i : Nat, toString i = s ∧ (l[i]?.join).isSome := by
  rw [indices, mem_filterMap]
  constructor
  · rintro ⟨⟨v, i⟩, hmem, hs⟩
    obtain ⟨w, rfl, rfl⟩ := Option.map_eq_some_iff.mp hs
    refine ⟨i, rfl, ?_⟩
    rw [mem_zipIdx_iff_getElem?] at hmem
    rw [hmem]
    rfl
  · rintro ⟨i, rfl, hi⟩
    rcases hget : l[i]? with _ | _ | v <;> rw [hget] at hi
    · cases hi
    · cases hi
    · exact ⟨(some v, i), mem_zipIdx_iff_getElem?.mpr hget, rfl⟩

/-- **THE KEYS OF AN ARRAY**: those under which there is a member. -/
theorem mem_keys : k.1 ∈ a.keys ↔ (a.own? k).isSome := by
  rw [keys, mem_append, mem_cons, mem_indices, own?]
  have hnamed : k.1 ∈ a.named.keys.map Subtype.val ↔ k ∈ a.named.keys :=
    mem_map_of_injective Subtype.val_injective
  rw [hnamed]
  split
  · next hk => exact iff_of_true (.inr (.inl (Key.slot_length.mp hk))) rfl
  · next i hi hk =>
      constructor
      · rintro (⟨j, hj, hsome⟩ | hlength | hmem)
        · obtain ⟨h, hslot⟩ := Key.slot_toString hj (isSome_bound hsome)
          cases hk.symm.trans hslot
          exact hsome
        · cases hk.symm.trans (Key.slot_length.mpr hlength)
        · cases hk.symm.trans (a.names k hmem)
      · intro hsome
        exact .inl ⟨i, (Key.slot_index hk).symm, hsome⟩
  · next hk =>
      rw [← has_iff, OrderedMap.has]
      constructor
      · rintro (⟨j, hj, hsome⟩ | hlength | hmem)
        · obtain ⟨h, hslot⟩ := Key.slot_toString hj (isSome_bound hsome)
          cases hk.symm.trans hslot
        · cases hk.symm.trans (Key.slot_length.mpr hlength)
        · exact hmem
      · exact fun h => .inr (.inr h)

end ArrayData

/-! ## Objects -/

/-- The names every array inherits, besides those of objects. -/
def arrayPrototype : List String :=
  ["at", "concat", "copyWithin", "entries", "every", "fill", "filter", "find",
    "findIndex", "findLast", "findLastIndex", "flat", "flatMap", "forEach",
    "includes", "indexOf", "join", "keys", "lastIndexOf", "map", "pop",
    "push", "reduce", "reduceRight", "reverse", "shift", "slice", "some",
    "sort", "splice", "toReversed", "toSorted", "toSpliced", "unshift", "values", "with"]

/-- An object.  Of a date, a regular expression and a byte array there is
    what is read as a whole; their members are left out. -/
inductive Node (R P : Type) where
  | object (members : OrderedMap Key (Value R P))
  | array (data : ArrayData R P)
  | date (json : Primitive P)
  | regexp (text : Primitive P)
  | bytes (content : List Nat)

/-- What reading a member gives: a value, or a method of the prototype of
    arrays or of objects. -/
inductive Lookup (R P : Type) where
  | value (v : Value R P)
  | method (ofArray : Bool)

def Lookup.map (f : R → Q) : Lookup R P → Lookup Q P
  | .value v => .value (v.map f)
  | .method ofArray => .method ofArray

namespace Node

def isArray : Node R P → Bool
  | .array _ => true
  | _ => false

def own? : Node R P → Key → Option (Value R P)
  | .object members, k => members.get? k
  | .array data, k => data.own? k
  | _, _ => none

def inherits (n : Node R P) (k : Key) : Bool :=
  objectPrototype.contains k.1 || (n.isArray && arrayPrototype.contains k.1)

/-- `Reflect.get(n, k)` -/
def get (n : Node R P) (k : Key) : Lookup R P :=
  match n.own? k with
  | some v => .value v
  | none => if n.inherits k then .method n.isArray else .value (.prim .undefined)

/-- `Reflect.has(n, k)` -/
def has (n : Node R P) (k : Key) : Bool := (n.own? k).isSome || n.inherits k

/-- `Reflect.ownKeys(n)`; the order of the keys of an object is left out. -/
def keys : Node R P → List String
  | .object members => members.keys.map Subtype.val
  | .array data => data.keys
  | _ => []

/-- `Reflect.set(n, k, v)`; nothing where it throws. -/
def put (toLength : P → Option Nat) :
    Node R P → Key → Value R P → Option (Node R P)
  | .object members, k, v => some (.object (members.set k v))
  | .array data, k, v => (data.put toLength k v).map .array
  | _, _, _ => none

/-- `Reflect.deleteProperty(n, k)` -/
def remove : Node R P → Key → Bool × Node R P
  | .object members, k => (true, .object (members.delete k))
  | .array data, k => ((data.remove k).1, .array (data.remove k).2)
  | n, _ => (true, n)

def map (f : R → Q) : Node R P → Node Q P
  | .object members => .object (members.map fun _ => Value.map f)
  | .array data => .array (data.map f)
  | .date json => .date json
  | .regexp text => .regexp text
  | .bytes content => .bytes content

theorem map_map {S : Type} (f : R → Q) (g : Q → S) (n : Node R P) :
    (n.map f).map g = n.map (g ∘ f) := by
  cases n with
  | object members => exact congrArg Node.object (N8nPlainObjects.map_map f g members)
  | array data => exact congrArg Node.array (ArrayData.map_map f g data)
  | date | regexp | bytes => rfl

section

variable (f : R → Q) (n : Node R P)

/-- **RENAMED REFERENCES**: an object whose references are renamed answers
    and changes as before. -/
theorem own?_map (k : Key) : (n.map f).own? k = (n.own? k).map (Value.map f) := by
  cases n with
  | object members => exact get?_map ..
  | array data => exact ArrayData.own?_map ..
  | date | regexp | bytes => rfl

theorem isArray_map : (n.map f).isArray = n.isArray := by
  cases n <;> rfl

theorem inherits_map (k : Key) : (n.map f).inherits k = n.inherits k := by
  rw [inherits, inherits, isArray_map]

theorem get_map (k : Key) : (n.map f).get k = (n.get k).map f := by
  rw [get, get, own?_map, inherits_map, isArray_map]
  rcases n.own? k with _ | v
  · dsimp only [Option.map_none]
    split <;> rfl
  · rfl

theorem has_map (k : Key) : (n.map f).has k = n.has k := by
  rw [has, has, own?_map, inherits_map, Option.isSome_map]

theorem keys_map : (n.map f).keys = n.keys := by
  cases n with
  | object members => exact congrArg _ (keys_mapValues f members)
  | array data => exact ArrayData.keys_map ..
  | date | regexp | bytes => rfl

end

theorem put_map (toLength : P → Option Nat) (f : R → Q) (n : Node R P) (k : Key) (v : Value R P) :
    (n.map f).put toLength k (v.map f) = (n.put toLength k v).map fun n => n.map f := by
  cases n with
  | object members => exact congrArg (some ∘ Node.object) (map_set f members k v)
  | array data =>
    show ((data.map f).put toLength k (v.map f)).map Node.array = _
    rw [ArrayData.put_map, put, Option.map_map, Option.map_map]
    rfl
  | date | regexp | bytes => rfl

theorem remove_map (f : R → Q) (n : Node R P) (k : Key) :
    (n.map f).remove k = ((n.remove k).1, (n.remove k).2.map f) := by
  cases n with
  | object members => exact congrArg (Prod.mk true ∘ Node.object) (map_delete f members k)
  | array data =>
    show (((data.map f).remove k).1, Node.array ((data.map f).remove k).2) = _
    rw [ArrayData.remove_map]
    rfl
  | date | regexp | bytes => rfl

/-! ### Reading after a change -/

theorem own?_put {toLength : P → Option Nat} {n n' : Node R P} {k l : Key}
    {v : Value R P} {r : R} (h : n.put toLength k v = some n')
    (hr : n'.own? l = some (.ref r)) :
    l = k ∧ v = .ref r ∨ l ≠ k ∧ n.own? l = some (.ref r) := by
  cases n with
  | object members =>
    cases h
    replace hr : (members.set k v).get? l = some (.ref r) := hr
    rw [get?_set] at hr
    split at hr
    · next heq => exact .inl ⟨heq.symm, Option.some.inj hr⟩
    · next hne => exact .inr ⟨Ne.symm hne, hr⟩
  | array data =>
    obtain ⟨data', hput, rfl⟩ := Option.map_eq_some_iff.mp h
    exact ArrayData.own?_put toLength hput hr
  | date | regexp | bytes => cases h

theorem own?_remove {n : Node R P} {k l : Key} {r : R}
    (hr : (n.remove k).2.own? l = some (.ref r)) :
    l ≠ k ∧ n.own? l = some (.ref r) := by
  cases n with
  | object members =>
    replace hr : (members.delete k).get? l = some (.ref r) := hr
    rw [get?_delete] at hr
    split at hr
    · cases hr
    · next hne => exact ⟨hne, hr⟩
  | array data => exact ArrayData.own?_remove hr
  | date | regexp | bytes => cases hr

/-- **THE KEYS OF AN OBJECT**: those under which it has a member itself. -/
theorem mem_keys {n : Node R P} {k : Key} : k.1 ∈ n.keys ↔ (n.own? k).isSome := by
  cases n with
  | object members =>
    refine (mem_map_of_injective Subtype.val_injective).trans ?_
    rw [← has_iff]
    rfl
  | array data => exact ArrayData.mem_keys
  | date | regexp | bytes => exact iff_of_false nofun nofun

end Node

end N8nPlainObjects
