import Mathlib.Data.List.Lex
import Mathlib.Data.List.Pairwise
import Mathlib.Data.List.Sort
import N8n.DirectedGraphProofs
import N8n.JsonTextProofs

/-! # The workflow checksum — a canonical text for the fields

    The fields are copied with the keys of every object sorted, and the copy
    is written as JSON.  Two values are the same content if the same labels
    stand at the same paths; the order of keys is no part of that.

    The copy assigns key by key, and an assignment to `__proto__` makes no
    key, so the text knows nothing of the paths through such keys
    (`sameText_iff`).  On all other paths it is exact: the copies are
    canonical, and canonical values with the same labels are equal. -/

namespace N8nWorkflowChecksum

open N8nOrderedMap N8nJsonText List
open N8nDirectedGraph (arrayIndexLimit)

variable {N : Type}

def protoKey : JsString := ofString "__proto__"

/-! ## Content by paths -/

inductive Step where
  | key (k : JsString)
  | index (i : Nat)
deriving DecidableEq

inductive Label (N : Type) where
  | null
  | bool (b : Bool)
  | number (n : N)
  | string (s : JsString)
  | array (length : Nat)
  | object

/-- What a value is, its children apart. -/
def label : Json N → Option (Label N)
  | .undefined => none
  | .null => some .null
  | .bool b => some (.bool b)
  | .number n => some (.number n)
  | .string s => some (.string s)
  | .array elements => some (.array elements.length)
  | .object _ => some .object

/-- A value as an element, where `undefined` counts as `null`. -/
def element : Json N → Json N
  | .undefined => .null
  | v => v

def child : Json N → Step → Option (Json N)
  | .array elements, .index i => elements[i]?.map element
  | .object members, .key k => findKey k members
  | _, _ => none

/-- The label at a path; a missing and an undefined member have none. -/
def labelAt : Json N → List Step → Option (Label N)
  | v, [] => label v
  | v, s :: path => (child v s).bind fun c => labelAt c path

/-- Equal as JSON values, up to the order of keys. -/
def SameJson (v w : Json N) : Prop := ∀ path, labelAt v path = labelAt w path

/-- The same, on the paths that lead through no key `__proto__`. -/
def SameOutsideProto (v w : Json N) : Prop :=
  ∀ path, .key protoKey ∉ path → labelAt v path = labelAt w path

/-! ## The canonical copy -/

/-- The number a key stands for, if it is an index. -/
def arrayIndex? (key : JsString) : Option Nat :=
  let n := key.foldl (fun n u => n * 10 + (u.val - 48)) 0
  if ofString (toString n) = key ∧ n < arrayIndexLimit then some n else none

def index (m : JsString × Json N) : Nat := (arrayIndex? m.1).getD 0

/-- Keys as an object lists them: indices by their size, then the others as
    they were inserted. -/
def enumerate (members : List (JsString × Json N)) : List (JsString × Json N) :=
  (members.filter fun m => (arrayIndex? m.1).isSome).mergeSort (fun a b => index a ≤ index b)
    ++ members.filter fun m => !(arrayIndex? m.1).isSome

/-- `Object.keys(value).sort()`, by code units. -/
def sortKeys (members : List (JsString × Json N)) : List (JsString × Json N) :=
  members.mergeSort fun a b => a.1 ≤ b.1

/-- The object after `sortedObject[key] = …` for each entry; what is
    assigned to `__proto__` is no key of it. -/
def assign (entries : List (JsString × Json N)) : Json N :=
  .object (enumerate (entries.filter fun m => m.1 ≠ protoKey))

mutual

def sortObjectKeys : Json N → Json N
  | .array elements => .array (sortElements elements)
  | .object members => assign (sortKeys (sortMembers members))
  | .undefined => .undefined
  | .null => .null
  | .bool b => .bool b
  | .number n => .number n
  | .string s => .string s

def sortElements : List (Json N) → List (Json N)
  | [] => []
  | e :: rest => sortObjectKeys e :: sortElements rest

def sortMembers : List (JsString × Json N) → List (JsString × Json N)
  | [] => []
  | (key, v) :: rest => (key, sortObjectKeys v) :: sortMembers rest

end

attribute [local simp] sortObjectKeys sortElements sortMembers

theorem sortElements_eq (elements : List (Json N)) :
    sortElements elements = elements.map sortObjectKeys := by
  induction elements with
  | nil => rfl
  | cons e rest ih => rw [sortElements, ih, map_cons]

theorem sortMembers_eq (members : List (JsString × Json N)) :
    sortMembers members = members.map fun m => (m.1, sortObjectKeys m.2) := by
  induction members with
  | nil => rfl
  | cons m rest ih => rw [sortMembers, ih, map_cons]

/-- Values whose objects hold no key twice. -/
inductive Distinct : Json N → Prop where
  | undefined : Distinct .undefined
  | null : Distinct .null
  | bool (b : Bool) : Distinct (.bool b)
  | number (n : N) : Distinct (.number n)
  | string (s : JsString) : Distinct (.string s)
  | array {elements : List (Json N)} (h : ∀ e ∈ elements, Distinct e) : Distinct (.array elements)
  | object {members : List (JsString × Json N)} (hnodup : (members.map Prod.fst).Nodup)
      (h : ∀ m ∈ members, Distinct m.2) : Distinct (.object members)

/-- A value with well-formed objects. -/
abbrev Value (N : Type) := { v : Json N // Distinct v }

/-! ## The workflow -/

inductive ChecksumField where
  | name | description | nodes | connections | settings | metadata | pinData
  | isArchived | activeVersionId
deriving DecidableEq

def checksumFields : List ChecksumField :=
  [.name, .description, .nodes, .connections, .settings, .metadata, .pinData,
    .isArchived, .activeVersionId]

def fieldKey : ChecksumField → JsString
  | .name => ofString "name"
  | .description => ofString "description"
  | .nodes => ofString "nodes"
  | .connections => ofString "connections"
  | .settings => ofString "settings"
  | .metadata => ofString "meta"
  | .pinData => ofString "pinData"
  | .isArchived => ofString "isArchived"
  | .activeVersionId => ofString "activeVersionId"

/-- The checksummed fields, `undefined` where there is none. -/
abbrev WorkflowSnapshot (N : Type) := ChecksumField → Value N

def isUndefined : Json N → Bool
  | .undefined => true
  | _ => false

/-- The loop over the fields. -/
def checksumPayload (workflow : WorkflowSnapshot N) : Json N :=
  .object ((checksumFields.map fun field =>
    (fieldKey field, (workflow field).1)).filter fun m => !isUndefined m.2)

/-- What is hashed. -/
def serializedPayload (num : NumberText N) (workflow : WorkflowSnapshot N) : Option JsString :=
  stringify num (sortObjectKeys (checksumPayload workflow))

/-! ## Lookups in lists of members -/

section

variable {κ ν : Type} [DecidableEq κ]

theorem findKey_iff {l : List (κ × ν)} (h : (l.map Prod.fst).Nodup)
    {k : κ} {v : ν} : findKey k l = some v ↔ (k, v) ∈ l :=
  ⟨mem_of_findKey, findKey_of_mem h⟩

theorem findKey_congr {l l' : List (κ × ν)} (h : (l.map Prod.fst).Nodup)
    (h' : (l'.map Prod.fst).Nodup) {k : κ}
    (hmem : ∀ v, (k, v) ∈ l ↔ (k, v) ∈ l') : findKey k l = findKey k l' := by
  ext v
  rw [findKey_iff h, findKey_iff h', hmem]

theorem findKey_map {μ : Type} (f : ν → μ) (l : List (κ × ν)) (k : κ) :
    findKey k (l.map fun m => (m.1, f m.2)) = (findKey k l).map f := by
  induction l with
  | nil => rfl
  | cons m rest ih =>
    rw [map_cons, findKey_cons, findKey_cons]
    split
    · rfl
    · exact ih

end

theorem keys_map (f : Json N → Json N) (members : List (JsString × Json N)) :
    (members.map fun m => (m.1, f m.2)).map Prod.fst
      = members.map Prod.fst := by
  rw [map_map]
  rfl

theorem enumerate_perm (members : List (JsString × Json N)) : (enumerate members).Perm members :=
  ((mergeSort_perm ..).append_right _).trans (filter_append_perm _ members)

theorem assign_perm (members : List (JsString × Json N)) :
    (enumerate ((sortKeys members).filter fun m => m.1 ≠ protoKey)).Perm
      (members.filter fun m => m.1 ≠ protoKey) :=
  (enumerate_perm _).trans ((mergeSort_perm ..).filter _)

/-! ## The copy on paths -/

theorem element_sortObjectKeys (v : Json N) :
    element (sortObjectKeys v) = sortObjectKeys (element v) := by
  cases v with
  | object members =>
    rfl
  | _ => rfl

theorem label_sortObjectKeys (v : Json N) : label (sortObjectKeys v) = label v := by
  cases v with
  | array elements =>
    rw [sortObjectKeys, sortElements_eq, label, length_map]
    rfl
  | object members =>
    rfl
  | _ => rfl

variable {v : Json N}

theorem Distinct.of_child {c : Json N} (h : Distinct v) {s : Step}
    (hc : child v s = some c) : Distinct c := by
  cases h with
  | array helements =>
    cases s with
    | key k => cases hc
    | index i =>
      obtain ⟨e, he, rfl⟩ := Option.map_eq_some_iff.mp hc
      have hdistinct := helements e (mem_of_getElem? he)
      cases e with
      | undefined => exact .null
      | _ => exact hdistinct
  | object hnodup hmembers =>
    cases s with
    | key k => exact hmembers (k, c) (mem_of_findKey hc)
    | index i => cases hc
  | _ => cases s <;> cases hc

variable {members : List (JsString × Json N)}

theorem nodup_assign (h : (members.map Prod.fst).Nodup) :
    ((enumerate ((sortKeys members).filter fun m => m.1 ≠ protoKey)).map Prod.fst).Nodup :=
  ((assign_perm members).map Prod.fst).nodup_iff.mpr (h.sublist ((filter_sublist ..).map _))

theorem findKey_assign (h : (members.map Prod.fst).Nodup) (k : JsString) :
    findKey k (enumerate ((sortKeys members).filter fun m =>
        m.1 ≠ protoKey))
      = if k = protoKey then none else findKey k members := by
  have hmem : ∀ v, (k, v) ∈ enumerate ((sortKeys members).filter fun m =>
      m.1 ≠ protoKey) ↔ (k, v) ∈ members ∧ k ≠ protoKey := by
    intro v
    rw [(assign_perm members).mem_iff, mem_filter, decide_eq_true_eq]
  by_cases hk : k = protoKey
  · rw [if_pos hk, findKey_eq_none]
    intro hkey
    obtain ⟨m, hm, rfl⟩ := mem_map.mp hkey
    exact ((hmem m.2).mp hm).2 hk
  · rw [if_neg hk]
    exact findKey_congr (nodup_assign h) h fun v =>
      (hmem v).trans (and_iff_left hk)

theorem child_sortObjectKeys (h : Distinct v) (s : Step) :
    child (sortObjectKeys v) s
      = if s = .key protoKey then none else (child v s).map sortObjectKeys := by
  cases h with
  | @array elements helements =>
    rw [sortObjectKeys, sortElements_eq]
    cases s with
    | key k => split <;> rfl
    | index i =>
      rw [if_neg Step.noConfusion, child, getElem?_map, child, Option.map_map, Option.map_map]
      exact congrArg (fun f => Option.map f _) (funext element_sortObjectKeys)
  | @object members hnodup hmembers =>
    rw [sortObjectKeys, sortMembers_eq]
    cases s with
    | index i =>
      rfl
    | key k =>
      rw [assign, child, findKey_assign ((keys_map _ _).symm ▸ hnodup), findKey_map, child]
      simp
  | _ => cases s <;> split <;> rfl

/-- **THE COPY** has the labels of the value, off the keys it cannot hold. -/
theorem labelAt_sortObjectKeys (h : Distinct v) (path : List Step) :
    labelAt (sortObjectKeys v) path = if .key protoKey ∈ path then none else labelAt v path := by
  induction path generalizing v with
  | nil => exact label_sortObjectKeys v
  | cons s path ih =>
    rw [labelAt, child_sortObjectKeys h, labelAt]
    by_cases hs : s = .key protoKey
    · rw [if_pos hs, if_pos (hs ▸ mem_cons_self ..)]
      rfl
    · rw [if_neg hs]
      rcases hc : child v s with _ | c
      · simp
      · rw [Option.map_some, Option.bind_some, ih (h.of_child hc)]
        simp [Ne.symm hs]

/-! ## Leaving out what is undefined -/

mutual

/-- The value as it is written: without members that are `undefined`. -/
def written : Json N → Json N
  | .array elements => .array (writtenElements elements)
  | .object members => .object (writtenMembers members)
  | .undefined => .undefined
  | .null => .null
  | .bool b => .bool b
  | .number n => .number n
  | .string s => .string s

def writtenElements : List (Json N) → List (Json N)
  | [] => []
  | e :: rest => element (written e) :: writtenElements rest

def writtenMembers : List (JsString × Json N) → List (JsString × Json N)
  | [] => []
  | (key, v) :: rest =>
    if isUndefined v then writtenMembers rest
    else (key, written v) :: writtenMembers rest

end

attribute [local simp] written writtenElements writtenMembers

theorem writtenElements_eq (elements : List (Json N)) :
    writtenElements elements = elements.map fun e => element (written e) := by
  induction elements with
  | nil => rfl
  | cons e rest ih => rw [writtenElements, ih, map_cons]

theorem writtenMembers_eq (members : List (JsString × Json N)) :
    writtenMembers members
      = (members.filter fun m => !isUndefined m.2).map fun m =>
          (m.1, written m.2) := by
  induction members with
  | nil => rfl
  | cons m rest ih =>
    rw [writtenMembers, ih, filter_cons]
    cases isUndefined m.2
    · rfl
    · rfl

theorem isPlain_element (h : isUndefined v = false → IsPlain (written v)) :
    IsPlain (element (written v)) := by
  cases v with
  | undefined => exact .null
  | null => exact .null
  | array elements => exact h rfl
  | object members => exact h rfl
  | _ => exact h rfl

theorem isPlain_written (v : Json N) (h : isUndefined v = false) : IsPlain (written v) := by
  induction v using Json.tree_induction with
  | undefined => cases h
  | null => exact .null
  | bool b => exact .bool b
  | number n => exact .number n
  | string s => exact .string s
  | array elements ih =>
    rw [written, writtenElements_eq]
    refine .array fun e he => ?_
    obtain ⟨d, hd, rfl⟩ := mem_map.mp he
    exact isPlain_element (ih d hd)
  | object members ih =>
    rw [written, writtenMembers_eq]
    refine .object fun m hm => ?_
    obtain ⟨d, hd, rfl⟩ := mem_map.mp hm
    obtain ⟨hmem, hdefined⟩ := mem_filter.mp hd
    exact ih d hmem (by simpa using hdefined)

theorem text_element (num : NumberText N) (v : Json N) : text num (element v) = text num v := by
  cases v with
  | _ => rfl

theorem stringify_written (num : NumberText N) (v : Json N) :
    stringify num (written v) = stringify num v := by
  induction v using Json.tree_induction with
  | array elements ih =>
    have htexts : ∀ e ∈ elements, text num (element (written e)) = text num e := by
      intro e he
      rw [text_element, text, ih e he]
      rfl
    rw [written, writtenElements_eq, stringify, stringify,
      stringifyElements_eq, stringifyElements_eq, map_map]
    exact congrArg (fun l => some (91 :: (join l ++ [93]))) (map_congr_left htexts)
  | object members ih =>
    have hmembers : stringifyMembers num (writtenMembers members)
        = stringifyMembers num members := by
      induction members with
      | nil => rfl
      | cons m rest ihrest =>
        obtain ⟨hm, hrest⟩ := forall_mem_cons.mp ih
        obtain ⟨key, v⟩ := m
        rw [writtenMembers, stringifyMembers, ← ihrest hrest]
        split
        · next hundefined =>
            cases v with
            | undefined => rfl
            | _ => cases hundefined
        · rw [stringifyMembers, hm]
    rw [written, stringify, stringify, hmembers]
  | _ => rfl

theorem labelAt_undefined (path : List Step) : labelAt (.undefined : Json N) path = none := by
  cases path with
  | nil => rfl
  | cons s path => cases s <;> rfl

theorem child_written (h : Distinct v) (s : Step) :
    child (written v) s = ((child v s).filter fun c => !isUndefined c).map written := by
  cases h with
  | @array elements helements =>
    rw [written, writtenElements_eq]
    cases s with
    | key k => rfl
    | index i =>
      rw [child, getElem?_map, child, Option.map_map]
      rcases elements[i]? with _ | e
      · rfl
      · show some (element (element (written e))) = _
        cases e with
        | _ => rfl
  | @object members hnodup hmembers =>
    rw [written, writtenMembers_eq]
    cases s with
    | index i => rfl
    | key k =>
      rw [child, findKey_map, child]
      refine congrArg (Option.map written) ?_
      ext c
      rw [findKey_iff (hnodup.sublist ((filter_sublist ..).map _)),
        mem_filter, Option.filter_eq_some_iff, findKey_iff hnodup]
  | _ => cases s <;> rfl

theorem labelAt_written (h : Distinct v) (path : List Step) :
    labelAt (written v) path = labelAt v path := by
  induction path generalizing v with
  | nil =>
    cases v with
    | array elements =>
      rw [written, writtenElements_eq, labelAt, label, length_map]
      rfl
    | _ => rfl
  | cons s path ih =>
    rw [labelAt, child_written h, labelAt]
    rcases hc : child v s with _ | c
    · rfl
    · rw [Option.bind_some, ← ih (h.of_child hc)]
      cases c with
      | undefined =>
        rw [written, labelAt_undefined]
        rfl
      | _ => rfl

/-! ## Canonical values -/

/-- The order an object lists two sorted keys in. -/
def Before (a b : JsString) : Prop :=
  match arrayIndex? a, arrayIndex? b with
  | some i, some j => i < j
  | some _, none => True
  | none, some _ => False
  | none, none => a < b

theorem Before.asymm {a b : JsString} (h : Before a b) : ¬ Before b a := by
  rw [Before] at h ⊢
  rcases ha : arrayIndex? a with _ | i
  · rcases hb : arrayIndex? b with _ | j
    · rw [ha, hb] at h
      exact lt_asymm h
    · rw [ha, hb] at h
      exact h.elim
  · rcases hb : arrayIndex? b with _ | j
    · exact id
    · rw [ha, hb] at h
      exact Nat.lt_asymm h

theorem arrayIndex?_injective {a b : JsString} {i : Nat}
    (ha : arrayIndex? a = some i) (hb : arrayIndex? b = some i) : a = b := by
  have htext : ∀ {k : JsString}, arrayIndex? k = some i → ofString (toString i) = k := by
    intro k hk
    rw [arrayIndex?] at hk
    split at hk
    · next h =>
        cases hk
        exact h.1
    · cases hk
  rw [← htext ha, ← htext hb]

/-- Objects list their keys in one order, all the way down. -/
inductive Canonical : Json N → Prop where
  | undefined : Canonical .undefined
  | null : Canonical .null
  | bool (b : Bool) : Canonical (.bool b)
  | number (n : N) : Canonical (.number n)
  | string (s : JsString) : Canonical (.string s)
  | array {elements : List (Json N)} (h : ∀ e ∈ elements, Canonical e) : Canonical (.array elements)
  | object {members : List (JsString × Json N)}
      (hbefore : members.Pairwise fun a b => Before a.1 b.1)
      (h : ∀ m ∈ members, Canonical m.2) : Canonical (.object members)

theorem pairwise_mergeSort_by {α β : Type} [LinearOrder β] (f : α → β) (l : List α) :
    (l.mergeSort fun a b => f a ≤ f b).Pairwise fun a b => f a ≤ f b := by
  refine (pairwise_mergeSort ?_ ?_ l).imp of_decide_eq_true
  · intro a b c hab hbc
    exact decide_eq_true (le_trans (of_decide_eq_true hab) (of_decide_eq_true hbc))
  · intro a b
    rcases le_total (f a) (f b) with hle | hle
    · rw [decide_eq_true hle, Bool.true_or]
    · rw [decide_eq_true hle, Bool.or_true]

theorem enumerate_before (hnodup : (members.map Prod.fst).Nodup)
    (hsorted : members.Pairwise fun a b => a.1 ≤ b.1) :
    (enumerate members).Pairwise fun a b => Before a.1 b.1 := by
  have hne : ∀ {l : List (JsString × Json N)}, (l.map Prod.fst).Nodup →
      l.Pairwise fun a b => a.1 ≠ b.1 := pairwise_map.mp
  refine pairwise_append.mpr ⟨?_, ?_, ?_⟩
  · -- Indices, by their size.
    have hkeys := hne (((mergeSort_perm (members.filter fun m =>
      (arrayIndex? m.1).isSome) fun a b => index a ≤ index b).map Prod.fst).nodup_iff.mpr
        (hnodup.sublist ((filter_sublist ..).map _)))
    refine ((pairwise_mergeSort_by index _).and hkeys).imp_of_mem ?_
    intro a b ha hb h
    obtain ⟨i, hi⟩ := Option.isSome_iff_exists.mp (mem_filter.mp (mem_mergeSort.mp ha)).2
    obtain ⟨j, hj⟩ := Option.isSome_iff_exists.mp (mem_filter.mp (mem_mergeSort.mp hb)).2
    obtain ⟨hle, hdiffer⟩ := h
    rw [index, index, hi, hj] at hle
    rw [Before, hi, hj]
    refine Nat.lt_of_le_of_ne hle ?_
    rintro rfl
    exact hdiffer (arrayIndex?_injective hi hj)
  · -- The other keys, as they were sorted.
    have hother := (hsorted.and (hne hnodup)).filter fun m => !(arrayIndex? m.1).isSome
    refine hother.imp_of_mem ?_
    intro a b ha hb h
    have hanone : arrayIndex? a.1 = none := by
      simpa using (mem_filter.mp ha).2
    have hbnone : arrayIndex? b.1 = none := by
      simpa using (mem_filter.mp hb).2
    rw [Before, hanone, hbnone]
    exact lt_of_le_of_ne h.1 h.2
  · intro a ha b hb
    obtain ⟨i, hi⟩ := Option.isSome_iff_exists.mp (mem_filter.mp (mem_mergeSort.mp ha)).2
    have hbnone : arrayIndex? b.1 = none := by
      simpa using (mem_filter.mp hb).2
    rw [Before, hi, hbnone]
    trivial

/-- **THE COPY IS CANONICAL.** -/
theorem canonical_sortObjectKeys (h : Distinct v) : Canonical (sortObjectKeys v) := by
  induction v using Json.tree_induction with
  | undefined => exact .undefined
  | null => exact .null
  | bool b => exact .bool b
  | number n => exact .number n
  | string s => exact .string s
  | array elements ih =>
    cases h with
    | array helements =>
      rw [sortObjectKeys, sortElements_eq]
      refine .array fun e he => ?_
      obtain ⟨d, hd, rfl⟩ := mem_map.mp he
      exact ih d hd (helements d hd)
  | object members ih =>
    cases h with
    | object hnodup hmembers =>
      rw [sortObjectKeys, sortMembers_eq, assign]
      have hkeys : ((members.map fun m => (m.1, sortObjectKeys m.2)).map
          Prod.fst).Nodup := (keys_map _ _).symm ▸ hnodup
      refine .object (enumerate_before ?_ ?_) fun m hm => ?_
      · exact (((mergeSort_perm ..).map Prod.fst).nodup_iff.mpr
          hkeys).sublist ((filter_sublist ..).map _)
      · exact (pairwise_mergeSort_by Prod.fst _).filter _
      · have hmem := (assign_perm _).mem_iff.mp hm
        obtain ⟨d, hd, rfl⟩ := mem_map.mp (mem_filter.mp hmem).1
        exact ih d hd (hmembers d hd)

theorem canonical_written (h : Canonical v) : Canonical (written v) := by
  induction v using Json.tree_induction with
  | array elements ih =>
    cases h with
    | array helements =>
      rw [written, writtenElements_eq]
      refine .array fun e he => ?_
      obtain ⟨d, hd, rfl⟩ := mem_map.mp he
      have hd' := ih d hd (helements d hd)
      cases d with
      | undefined => exact .null
      | _ => exact hd'
  | object members ih =>
    cases h with
    | object hbefore hmembers =>
      rw [written, writtenMembers_eq]
      refine .object ?_ fun m hm => ?_
      · exact pairwise_map.mpr (hbefore.filter _)
      · obtain ⟨d, hd, rfl⟩ := mem_map.mp hm
        have hmem := (mem_filter.mp hd).1
        exact ih d hmem (hmembers d hmem)
  | _ => exact h

theorem label_isSome (h : IsPlain v) : label v ≠ none := by
  cases h <;> exact Option.some_ne_none _

theorem element_of_isPlain (h : IsPlain v) : element v = v := by
  cases h <;> rfl

theorem members_eq {ms ns : List (JsString × Json N)} (hms : ms.Pairwise fun a b => Before a.1 b.1)
    (hns : ns.Pairwise fun a b => Before a.1 b.1) (h : ∀ m, m ∈ ms ↔ m ∈ ns) : ms = ns := by
  have hirrefl : ∀ {l : List (JsString × Json N)},
      l.Pairwise (fun a b => Before a.1 b.1) → l.Nodup := by
    intro l hl
    refine hl.imp fun {a b} hab => ?_
    rintro rfl
    exact hab.asymm hab
  refine List.Perm.eq_of_pairwise (fun a b _ _ hab hba => ?_) hms hns
    ((perm_ext_iff_of_nodup (hirrefl hms) (hirrefl hns)).mpr h)
  exact absurd hba hab.asymm

theorem nodup_of_before {ms : List (JsString × Json N)}
    (h : ms.Pairwise fun a b => Before a.1 b.1) :
    (ms.map Prod.fst).Nodup := by
  refine pairwise_map.mpr (h.imp fun {a b} hab heq => ?_)
  rw [heq] at hab
  exact hab.asymm hab

/-- **CANONICAL VALUES** with the same labels are equal. -/
theorem eq_of_labels {w : Json N} (hv : Canonical v) (hw : Canonical w)
    (hpv : IsPlain v) (hpw : IsPlain w) (h : SameJson v w) : v = w := by
  induction v using Json.tree_induction generalizing w with
  | undefined => cases hpv
  | null =>
    have hroot := h []
    cases hpw <;> cases hroot
    rfl
  | bool b =>
    have hroot := h []
    cases hpw <;> cases hroot
    rfl
  | number n =>
    have hroot := h []
    cases hpw <;> cases hroot
    rfl
  | string s =>
    have hroot := h []
    cases hpw <;> cases hroot
    rfl
  | array elements ih =>
    have hroot := h []
    cases hpw with
    | @array others hothers =>
      cases hv with | array hcv =>
      cases hw with | array hcw =>
      cases hpv with | array helements =>
      have hlength : elements.length = others.length := by
        injection hroot with hlabel
        injection hlabel
      refine congrArg Json.array (ext_getElem hlength ?_)
      intro i hi hj
      have hmem := getElem_mem hi
      have hmem' := getElem_mem hj
      refine ih _ hmem (hcv _ hmem) (hcw _ hmem') (helements _ hmem)
        (hothers _ hmem') fun path => ?_
      have hstep := h (.index i :: path)
      rw [labelAt, labelAt, child, child, getElem?_eq_getElem hi, getElem?_eq_getElem hj,
        Option.map_some, Option.map_some, element_of_isPlain (helements _ hmem),
        element_of_isPlain (hothers _ hmem')] at hstep
      exact hstep
    | _ => cases hroot
  | object members ih =>
    have hroot := h []
    cases hpw with
    | @object others hothers =>
      cases hv with | object hbv hcv =>
      cases hw with | object hbw hcw =>
      cases hpv with | object hmembers =>
      have hfind : ∀ k v, findKey k members = some v ↔ (k, v) ∈ members :=
        fun k v => findKey_iff (nodup_of_before hbv)
      have hfind' : ∀ k v, findKey k others = some v ↔ (k, v) ∈ others :=
        fun k v => findKey_iff (nodup_of_before hbw)
      -- The members of one key are equal.
      have hsame : ∀ {k x y}, (k, x) ∈ members → (k, y) ∈ others → x = y := by
        intro k x y hx hy
        refine ih (k, x) hx (hcv _ hx) (hcw _ hy) (hmembers _ hx) (hothers _ hy) fun path => ?_
        have hstep := h (.key k :: path)
        rw [labelAt, labelAt, child, child, (hfind k x).mpr hx, (hfind' k y).mpr hy] at hstep
        exact hstep
      refine congrArg Json.object (members_eq hbv hbw fun m => ?_)
      obtain ⟨k, x⟩ := m
      have hstep := h [.key k]
      rw [labelAt, labelAt, child, child] at hstep
      constructor
      · intro hx
        rw [(hfind k x).mpr hx] at hstep
        rcases hy : findKey k others with _ | y
        · rw [hy] at hstep
          exact absurd hstep (label_isSome (hmembers _ hx))
        · have hmem := (hfind' k y).mp hy
          rwa [hsame hx hmem]
      · intro hy
        rw [(hfind' k x).mpr hy] at hstep
        rcases hx : findKey k members with _ | y
        · rw [hx] at hstep
          exact absurd hstep.symm (label_isSome (hothers _ hy))
        · have hmem := (hfind k y).mp hx
          rwa [← hsame hmem hy]
    | _ => cases hroot

/-! ## The checksum -/

theorem Canonical.distinct (h : Canonical v) : Distinct v := by
  induction v using Json.tree_induction with
  | undefined => exact .undefined
  | null => exact .null
  | bool b => exact .bool b
  | number n => exact .number n
  | string s => exact .string s
  | array elements ih =>
    cases h with
    | array helements => exact .array fun e he => ih e he (helements e he)
  | object members ih =>
    cases h with
    | object hbefore hmembers =>
      exact .object (nodup_of_before hbefore) fun m hm =>
        ih m hm (hmembers m hm)

theorem isUndefined_sortObjectKeys (v : Json N) :
    isUndefined (sortObjectKeys v) = isUndefined v := by
  cases v with
  | object members =>
    rfl
  | _ => rfl

theorem labelAt_copy (h : Distinct v) (path : List Step) :
    labelAt (written (sortObjectKeys v)) path
      = if .key protoKey ∈ path then none else labelAt v path := by
  rw [labelAt_written (canonical_sortObjectKeys h).distinct, labelAt_sortObjectKeys h]

/-- **THE TEXT** of two values is the same exactly when they have the same
    content outside of what is stored under `__proto__`. -/
theorem sameText_iff (num : NumberText N) {w : Json N} (hv : Distinct v)
    (hw : Distinct w) (hdv : isUndefined v = false) (hdw : isUndefined w = false) :
    stringify num (sortObjectKeys v) = stringify num (sortObjectKeys w) ↔ SameOutsideProto v w := by
  have hpv := isPlain_written (sortObjectKeys v) ((isUndefined_sortObjectKeys v).trans hdv)
  have hpw := isPlain_written (sortObjectKeys w) ((isUndefined_sortObjectKeys w).trans hdw)
  rw [← stringify_written, ← stringify_written num (sortObjectKeys w)]
  constructor
  · intro h path hpath
    have hcopy := congrArg (fun u => labelAt u path) (stringify_injective num hpv hpw h)
    simpa only [labelAt_copy hv, labelAt_copy hw, if_neg hpath] using hcopy
  · intro h
    refine congrArg (stringify num) (eq_of_labels (canonical_written (canonical_sortObjectKeys hv))
      (canonical_written (canonical_sortObjectKeys hw)) hpv hpw ?_)
    intro path
    rw [labelAt_copy hv, labelAt_copy hw]
    split
    · rfl
    · next hpath => exact h path hpath

/-! ## The checksum -/

/-- The checksummed fields hold equal JSON, up to the order of keys. -/
def SameContent (v w : WorkflowSnapshot N) : Prop := ∀ field, SameJson (v field).1 (w field).1

/-- They do so where no key `__proto__` is on the way. -/
def SameContentOutsideProto (v w : WorkflowSnapshot N) : Prop :=
  ∀ field, SameOutsideProto (v field).1 (w field).1

theorem mem_checksumFields (field : ChecksumField) : field ∈ checksumFields := by
  cases field <;> decide

theorem nodup_fieldKeys : (checksumFields.map fieldKey).Nodup := by decide

theorem fieldKey_injective {f g : ChecksumField} (h : fieldKey f = fieldKey g) : f = g :=
  inj_on_of_nodup_map nodup_fieldKeys (mem_checksumFields f) (mem_checksumFields g) h

theorem fieldKey_ne_protoKey (field : ChecksumField) : fieldKey field ≠ protoKey := by
  cases field <;> decide

section

variable (w : WorkflowSnapshot N)

/-- The fields of the payload, those that are `undefined` included. -/
def fieldEntries : List (JsString × Json N) :=
  checksumFields.map fun field => (fieldKey field, (w field).1)

theorem mem_fieldEntries {m : JsString × Json N} :
    m ∈ fieldEntries w ↔ ∃ field, (fieldKey field, (w field).1) = m := by
  rw [fieldEntries, mem_map]
  exact ⟨fun ⟨field, _, h⟩ => ⟨field, h⟩, fun ⟨field, h⟩ => ⟨field, mem_checksumFields field, h⟩⟩

theorem nodup_payload :
    (((fieldEntries w).filter fun m => !isUndefined m.2).map Prod.fst).Nodup := by
  have hkeys : ((fieldEntries w).map Prod.fst).Nodup := by
    exact nodup_fieldKeys
  exact hkeys.sublist ((filter_sublist ..).map _)

theorem distinct_checksumPayload : Distinct (checksumPayload w) := by
  refine .object (nodup_payload w) fun m hm => ?_
  obtain ⟨field, rfl⟩ := (mem_fieldEntries w).mp (mem_filter.mp hm).1
  exact (w field).2

theorem labelAt_field (field : ChecksumField) (path : List Step) :
    labelAt (checksumPayload w) (.key (fieldKey field) :: path) = labelAt (w field).1 path := by
  have hfind : ∀ v, findKey (fieldKey field)
      ((fieldEntries w).filter fun m => !isUndefined m.2) = some v
        ↔ v = (w field).1 ∧ isUndefined v = false := by
    intro v
    rw [findKey_iff (nodup_payload w), mem_filter, mem_fieldEntries]
    constructor
    · rintro ⟨⟨f, hf⟩, hdefined⟩
      obtain ⟨hkey, rfl⟩ := Prod.mk.inj hf
      exact ⟨by rw [fieldKey_injective hkey], by simpa using hdefined⟩
    · rintro ⟨rfl, hdefined⟩
      exact ⟨⟨field, rfl⟩, by simpa using hdefined⟩
  show (findKey _ ((fieldEntries w).filter _)).bind _ = _
  cases hdefined : isUndefined (w field).1 with
  | false =>
    rw [(hfind _).mpr ⟨rfl, hdefined⟩]
    rfl
  | true =>
    have hnone : findKey (fieldKey field)
        ((fieldEntries w).filter fun m => !isUndefined m.2) = none := by
      refine Option.eq_none_iff_forall_ne_some.mpr fun v hv => ?_
      obtain ⟨rfl, hfalse⟩ := (hfind v).mp hv
      rw [hdefined] at hfalse
      cases hfalse
    rw [hnone]
    rcases hvalue : (w field).1 with _ | _
    · rw [labelAt_undefined]
      rfl
    all_goals
      rw [hvalue] at hdefined
      cases hdefined

theorem labelAt_other {s : Step} (h : ∀ field, s ≠ .key (fieldKey field))
    (path : List Step) : labelAt (checksumPayload w) (s :: path) = none := by
  have hnone : child (checksumPayload w) s = none := by
    cases s with
    | index i => rfl
    | key k =>
      refine findKey_eq_none.mpr fun hkey => ?_
      obtain ⟨m, hm, rfl⟩ := mem_map.mp hkey
      obtain ⟨field, rfl⟩ := (mem_fieldEntries w).mp (mem_filter.mp hm).1
      exact h field rfl
  rw [labelAt, hnone]
  rfl

end

theorem sameOutsideProto_payload {v w : WorkflowSnapshot N} :
    SameOutsideProto (checksumPayload v) (checksumPayload w) ↔ SameContentOutsideProto v w := by
  constructor
  · intro h field path hpath
    have hfield := h (.key (fieldKey field) :: path) fun hmem => by
      rcases mem_cons.mp hmem with hkey | hrest
      · exact fieldKey_ne_protoKey field (Step.key.inj hkey).symm
      · exact hpath hrest
    rwa [labelAt_field, labelAt_field] at hfield
  · intro h path hpath
    cases path with
    | nil => rfl
    | cons s path =>
      by_cases hs : ∃ field, s = .key (fieldKey field)
      · obtain ⟨field, rfl⟩ := hs
        rw [labelAt_field, labelAt_field]
        exact h field path fun hmem => hpath (mem_cons_of_mem _ hmem)
      · have hother := not_exists.mp hs
        rw [labelAt_other v hother, labelAt_other w hother]

/-- **THE HASHED STRINGS** of two workflows are the same exactly when the
    fields agree outside of what is stored under `__proto__`. -/
theorem serializedPayload_eq_iff (num : NumberText N) (v w : WorkflowSnapshot N) :
    serializedPayload num v = serializedPayload num w ↔ SameContentOutsideProto v w :=
  (sameText_iff num (distinct_checksumPayload v)
    (distinct_checksumPayload w) rfl rfl).trans sameOutsideProto_payload

/-- The hashed string depends exactly on the content of two workflows that
    differ, if at all, where the copy can show it. -/
theorem checksum_exact_iff (num : NumberText N) (v w : WorkflowSnapshot N) :
    (serializedPayload num v = serializedPayload num w ↔ SameContent v w)
      ↔ (SameContentOutsideProto v w → SameContent v w) := by
  rw [serializedPayload_eq_iff]
  have hweaker : SameContent v w → SameContentOutsideProto v w := fun h field path _ => h field path
  exact ⟨fun h => h.mp, fun h => ⟨h, hweaker⟩⟩

/-- A workflow with nothing but meta data. -/
def withMetadata (value : Value (Fin 10)) : WorkflowSnapshot (Fin 10)
  | .metadata => value
  | _ => ⟨.undefined, .undefined⟩

theorem distinct_protoObject : Distinct (.object [(protoKey, .number (1 : Fin 10))]) :=
  .object (nodup_singleton _) (forall_mem_singleton.mpr (.number 1))

def protoObject : Value (Fin 10) := ⟨_, distinct_protoObject⟩

theorem distinct_emptyObject : Distinct (.object ([] : List (JsString × Json (Fin 10)))) :=
  .object nodup_nil fun m hm => by cases hm

def emptyObject : Value (Fin 10) := ⟨_, distinct_emptyObject⟩

/-- The key `__proto__` and what is stored there make no difference. -/
theorem not_checksum_exact_protoObject :
    ¬ (serializedPayload digitText (withMetadata protoObject)
          = serializedPayload digitText (withMetadata emptyObject)
        ↔ SameContent (withMetadata protoObject) (withMetadata emptyObject)) := by
  intro h
  have houtside : SameContentOutsideProto (withMetadata protoObject)
      (withMetadata emptyObject) := by
    intro field path hpath
    cases field with
    | metadata =>
      rcases path with _ | ⟨_ | i, path⟩
      · rfl
      · next k =>
          have hk : k ≠ protoKey := by
            rintro rfl
            exact hpath (mem_cons_self ..)
          have hnone : child protoObject.1 (.key k) = none := by
            show findKey k [(protoKey, _)] = none
            rw [findKey_cons, if_neg (Ne.symm hk), findKey_nil]
          show (child protoObject.1 (.key k)).bind _ = none
          rw [hnone]
          rfl
      · rfl
    | _ => rfl
  have hsame := h.mp ((serializedPayload_eq_iff digitText _ _).mpr houtside)
  have hlabel := hsame .metadata [.key protoKey]
  cases hlabel

/-- The workflow as it is when its fields went through `sortObjectKeys`
    before. -/
def sortedSnapshot (w : WorkflowSnapshot N) : WorkflowSnapshot N := fun field =>
  ⟨sortObjectKeys (w field).1, (canonical_sortObjectKeys (w field).2).distinct⟩

/-- **SORTED TWICE**: a workflow whose keys were sorted before has the same
    hashed string. -/
theorem serializedPayload_sortedSnapshot {N : Type} [DecidableEq N] (num : NumberText N) (w : WorkflowSnapshot N) :
    serializedPayload num (sortedSnapshot w) = serializedPayload num w :=
  (serializedPayload_eq_iff num _ _).mpr fun field path hpath =>
    (labelAt_sortObjectKeys (w field).2 path).trans (if_neg hpath)

end N8nWorkflowChecksum
