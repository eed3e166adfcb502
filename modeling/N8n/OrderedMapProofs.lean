import Mathlib.Data.List.Perm.Basic

/-! # Insertion-ordered maps — one entry per key, kept in insertion order

    A JavaScript object used as a dictionary: writing to a known key
    replaces its value in place, writing to a new key appends an entry,
    `delete` takes the entry out.  That no key occurs twice is a field of
    the structure.

    Order aside, both ways to write a key come to the same thing: the entry
    of the key in front of the map without it (`entries_set`).  Every result
    about a sum over the entries is read off that fact. -/

namespace N8nOrderedMap

open List

variable {κ ν μ β : Type}

/-- A map with its entries in insertion order. -/
structure OrderedMap (κ ν : Type) where
  entries : List (κ × ν)
  nodup : (entries.map Prod.fst).Nodup
deriving DecidableEq

/-! ## Entry lists -/

/-- Replace the value of the key in place, or append a new entry. -/
def setEntry [DecidableEq κ] (k : κ) (v : ν) : List (κ × ν) → List (κ × ν)
  | [] => [(k, v)]
  | (a, x) :: rest => if a = k then (k, v) :: rest else (a, x) :: setEntry k v rest

/-- The entries of the other keys. -/
def dropKey [DecidableEq κ] (k : κ) (l : List (κ × ν)) : List (κ × ν) := l.filter (fun p => p.1 ≠ k)

/-- The value stored under the key. -/
def findKey [DecidableEq κ] (k : κ) : List (κ × ν) → Option ν
  | [] => none
  | (a, x) :: rest => if a = k then some x else findKey k rest

section

variable [DecidableEq κ]

theorem setEntry_nil (k : κ) (v : ν) : setEntry k v [] = [(k, v)] := rfl

theorem setEntry_cons (k a : κ) (v x : ν) (rest : List (κ × ν)) :
    setEntry k v ((a, x) :: rest)
      = if a = k then (k, v) :: rest else (a, x) :: setEntry k v rest := rfl

theorem findKey_nil (k : κ) : findKey k ([] : List (κ × ν)) = none := rfl

theorem findKey_cons (k a : κ) (x : ν) (rest : List (κ × ν)) :
    findKey k ((a, x) :: rest) = if a = k then some x else findKey k rest :=
  rfl

variable {l : List (κ × ν)} {k : κ}

theorem dropKey_of_not_mem (h : k ∉ l.map Prod.fst) : dropKey k l = l := by
  refine filter_eq_self.mpr ?_
  intro p hp
  refine decide_eq_true ?_
  intro heq
  exact h (heq ▸ mem_map_of_mem hp)

theorem mem_dropKey {p : κ × ν} : p ∈ dropKey k l ↔ p ∈ l ∧ p.1 ≠ k := by
  simp [dropKey]

/-- The entry of a key that is there stands for all the key has. -/
theorem perm_of_findKey {v : ν} (hl : (l.map Prod.fst).Nodup) (h : findKey k l = some v) :
    l.Perm ((k, v) :: dropKey k l) := by
  induction l with
  | nil => cases h
  | cons p rest ih =>
    obtain ⟨a, x⟩ := p
    obtain ⟨hnot, hrest⟩ := nodup_cons.mp hl
    by_cases hak : a = k
    · subst hak
      rw [findKey_cons, if_pos rfl] at h
      cases h
      have hd : dropKey a ((a, v) :: rest) = rest := by
        rw [dropKey, filter_cons_of_neg (by simp)]
        exact dropKey_of_not_mem hnot
      rw [hd]
    · rw [findKey_cons, if_neg hak] at h
      have hd : dropKey k ((a, x) :: rest) = (a, x) :: dropKey k rest :=
        filter_cons_of_pos (by simpa using hak)
      rw [hd]
      exact ((ih hrest h).cons (a, x)).trans (List.Perm.swap ..)

theorem findKey_eq_none : findKey k l = none ↔ k ∉ l.map Prod.fst := by
  induction l with
  | nil => simp [findKey_nil]
  | cons p rest ih =>
    obtain ⟨a, x⟩ := p
    by_cases hak : a = k
    · simp [findKey_cons, hak]
    · rw [findKey_cons, if_neg hak, ih]
      simp [Ne.symm hak]

theorem mem_of_findKey {v : ν} (h : findKey k l = some v) : (k, v) ∈ l := by
  induction l with
  | nil => cases h
  | cons p rest ih =>
    obtain ⟨a, x⟩ := p
    by_cases hak : a = k
    · rw [findKey_cons, if_pos hak] at h
      cases h
      rw [hak]
      exact mem_cons_self ..
    · rw [findKey_cons, if_neg hak] at h
      exact mem_cons_of_mem _ (ih h)

theorem findKey_of_mem {v : ν} (hl : (l.map Prod.fst).Nodup) (h : (k, v) ∈ l) :
    findKey k l = some v := by
  induction l with
  | nil => cases h
  | cons p rest ih =>
    obtain ⟨a, x⟩ := p
    obtain ⟨hnot, hrest⟩ := nodup_cons.mp hl
    rcases mem_cons.mp h with heq | hmem
    · cases heq
      rw [findKey_cons, if_pos rfl]
    · have hak : a ≠ k := by
        rintro rfl
        have hin := mem_map_of_mem (f := Prod.fst) hmem
        exact hnot hin
      rw [findKey_cons, if_neg hak]
      exact ih hrest hmem

section

variable (k : κ)

theorem findKey_setEntry (a : κ) (v : ν) (l : List (κ × ν)) :
    findKey a (setEntry k v l) = if k = a then some v else findKey a l := by
  induction l with
  | nil => rfl
  | cons p rest ih =>
    obtain ⟨b, x⟩ := p
    by_cases hbk : b = k
    · subst hbk
      rw [setEntry_cons, if_pos rfl, findKey_cons, findKey_cons]
      split <;> rfl
    · rw [setEntry_cons, if_neg hbk, findKey_cons, findKey_cons, ih]
      by_cases hba : b = a
      · subst hba
        rw [if_pos rfl, if_neg (Ne.symm hbk), if_pos rfl]
      · rw [if_neg hba, if_neg hba]

theorem findKey_dropKey (a : κ) (l : List (κ × ν)) :
    findKey a (dropKey k l) = if a = k then none else findKey a l := by
  induction l with
  | nil => simp [dropKey, findKey_nil]
  | cons p rest ih =>
    obtain ⟨b, x⟩ := p
    by_cases hbk : b = k
    · subst hbk
      have hd : dropKey b ((b, x) :: rest) = dropKey b rest := filter_cons_of_neg (by simp)
      rw [hd, ih, findKey_cons]
      by_cases hab : a = b
      · rw [if_pos hab, if_pos hab]
      · rw [if_neg hab, if_neg hab, if_neg (Ne.symm hab)]
    · have hd : dropKey k ((b, x) :: rest) = (b, x) :: dropKey k rest :=
        filter_cons_of_pos (by simpa using hbk)
      rw [hd, findKey_cons, findKey_cons, ih]
      by_cases hba : b = a
      · subst hba
        rw [if_pos rfl, if_neg hbk, if_pos rfl]
      · rw [if_neg hba, if_neg hba]

/-- Writing a key: its entry, and the entries of the other keys. -/
theorem setEntry_perm (v : ν) (hl : (l.map Prod.fst).Nodup) :
    (setEntry k v l).Perm ((k, v) :: dropKey k l) := by
  induction l with
  | nil => exact List.Perm.refl _
  | cons p rest ih =>
    obtain ⟨a, x⟩ := p
    obtain ⟨hnot, hrest⟩ := nodup_cons.mp hl
    by_cases hak : a = k
    · subst hak
      have hd : dropKey a ((a, x) :: rest) = rest := by
        rw [dropKey, filter_cons_of_neg (by simp)]
        exact dropKey_of_not_mem hnot
      rw [setEntry_cons, if_pos rfl, hd]
    · have hd : dropKey k ((a, x) :: rest) = (a, x) :: dropKey k rest :=
        filter_cons_of_pos (by simpa using hak)
      rw [setEntry_cons, if_neg hak, hd]
      exact ((ih hrest).cons (a, x)).trans (List.Perm.swap ..)

theorem dropKey_nodup (hl : (l.map Prod.fst).Nodup) : ((dropKey k l).map Prod.fst).Nodup :=
  hl.sublist ((filter_sublist ..).map _)

theorem setEntry_nodup (v : ν) (hl : (l.map Prod.fst).Nodup) :
    ((setEntry k v l).map Prod.fst).Nodup := by
  refine (((setEntry_perm k v hl).map Prod.fst).nodup_iff).mpr ?_
  refine nodup_cons.mpr ⟨?_, dropKey_nodup k hl⟩
  intro hmem
  obtain ⟨p, hp, hpk⟩ := mem_map.mp hmem
  exact (mem_dropKey.mp hp).2 hpk

theorem setEntry_setEntry (u v : ν) (l : List (κ × ν)) :
    setEntry k v (setEntry k u l) = setEntry k v l := by
  induction l with
  | nil => simp [setEntry_nil, setEntry_cons]
  | cons p rest ih =>
    obtain ⟨a, x⟩ := p
    by_cases hak : a = k
    · simp [setEntry_cons, hak]
    · simp [setEntry_cons, hak, ih]

theorem dropKey_setEntry (v : ν) (l : List (κ × ν)) : dropKey k (setEntry k v l) = dropKey k l := by
  induction l with
  | nil => simp [setEntry_nil, dropKey]
  | cons p rest ih =>
    obtain ⟨a, x⟩ := p
    by_cases hak : a = k
    · simp [setEntry_cons, dropKey, hak]
    · have hd : ∀ l', dropKey k ((a, x) :: l') = (a, x) :: dropKey k l' :=
        fun l' => filter_cons_of_pos (by simpa using hak)
      rw [setEntry_cons, if_neg hak, hd, hd, ih]

end

end

/-! ## The map -/

namespace OrderedMap

/-- `{}`. -/
def empty : OrderedMap κ ν := { entries := [], nodup := nodup_nil }

/-- `Object.keys(m)`. -/
def keys (m : OrderedMap κ ν) : List κ := m.entries.map Prod.fst

/-- Every value replaced, key by key. -/
def map (f : κ → ν → μ) (m : OrderedMap κ ν) : OrderedMap κ μ :=
  { entries := m.entries.map fun p => (p.1, f p.1 p.2)
    nodup := by
      rw [map_map]
      exact m.nodup }

def size (m : OrderedMap κ ν) : Nat := m.entries.length

/-- The entries that pass a test, all others deleted. -/
def filter (m : OrderedMap κ ν) (p : κ × ν → Bool) : OrderedMap κ ν :=
  { entries := m.entries.filter p
    nodup := m.nodup.sublist ((filter_sublist ..).map _) }

theorem size_filter_le (m : OrderedMap κ ν) (p : κ × ν → Bool) : (m.filter p).size ≤ m.size :=
  length_filter_le ..

variable [DecidableEq κ]

/-- `m[k]`. -/
def get? (m : OrderedMap κ ν) (k : κ) : Option ν := findKey k m.entries

/-- `m.hasOwnProperty(k)`. -/
def has (m : OrderedMap κ ν) (k : κ) : Bool := (m.get? k).isSome

/-- `m[k] = v`. -/
def set (m : OrderedMap κ ν) (k : κ) (v : ν) : OrderedMap κ ν :=
  { entries := setEntry k v m.entries, nodup := setEntry_nodup k v m.nodup }

/-- `delete m[k]`. -/
def delete (m : OrderedMap κ ν) (k : κ) : OrderedMap κ ν :=
  { entries := dropKey k m.entries, nodup := dropKey_nodup k m.nodup }

variable {m : OrderedMap κ ν} {k : κ}

theorem get?_eq_none : m.get? k = none ↔ k ∉ m.keys := findKey_eq_none

theorem has_iff : m.has k = true ↔ k ∈ m.keys := by
  rw [has, Option.isSome_iff_ne_none, ne_eq, get?_eq_none, Decidable.not_not]

theorem get?_set (m : OrderedMap κ ν) (k a : κ) (v : ν) :
    (m.set k v).get? a = if k = a then some v else m.get? a :=
  findKey_setEntry k a v m.entries

theorem get?_delete (m : OrderedMap κ ν) (k a : κ) :
    (m.delete k).get? a = if a = k then none else m.get? a :=
  findKey_dropKey k a m.entries

variable {v : ν}

theorem get?_eq_some : m.get? k = some v ↔ (k, v) ∈ m.entries :=
  ⟨mem_of_findKey, findKey_of_mem m.nodup⟩

theorem get?_map (f : κ → ν → μ) (m : OrderedMap κ ν) (k : κ) :
    (m.map f).get? k = (m.get? k).map (f k) := by
  show findKey k (m.entries.map fun p => (p.1, f p.1 p.2)) = _
  rw [get?]
  induction m.entries with
  | nil => rfl
  | cons p rest ih =>
    rw [map_cons, findKey_cons, findKey_cons]
    by_cases hk : p.1 = k
    · rw [if_pos hk, if_pos hk, ← hk]
      rfl
    · rw [if_neg hk, if_neg hk]
      exact ih

theorem get?_filter_eq_some {p : κ × ν → Bool} :
    (m.filter p).get? k = some v ↔ m.get? k = some v ∧ p (k, v) = true := by
  rw [get?_eq_some, get?_eq_some, filter, mem_filter]

theorem mem_keys_of_get? (h : m.get? k = some v) : k ∈ m.keys :=
  mem_map_of_mem (f := Prod.fst) (mem_of_findKey h)

theorem exists_get? (h : k ∈ m.keys) : ∃ v, m.get? k = some v := by
  rcases hget : m.get? k with _ | v
  · exact absurd h (get?_eq_none.mp hget)
  · exact ⟨v, rfl⟩

theorem delete_of_not_mem (h : k ∉ m.keys) :
    (m.delete k).entries = m.entries := dropKey_of_not_mem h

theorem entries_of_get? (h : m.get? k = some v) : m.entries.Perm ((k, v) :: (m.delete k).entries) :=
  perm_of_findKey m.nodup h

section

variable (m : OrderedMap κ ν) (k : κ)

theorem entries_set (v : ν) : (m.set k v).entries.Perm ((k, v) :: (m.delete k).entries) :=
  setEntry_perm k v m.nodup

/-- The later of two writes to a key stays. -/
theorem set_set (u v : ν) : (m.set k u).set k v = m.set k v := by
  rw [set, OrderedMap.mk.injEq]
  exact setEntry_setEntry k u v m.entries

theorem delete_set (v : ν) : (m.set k v).delete k = m.delete k := by
  rw [delete, OrderedMap.mk.injEq]
  exact dropKey_setEntry k v m.entries

end

theorem mem_entries_set {p : κ × ν} :
    p ∈ (m.set k v).entries ↔ p = (k, v) ∨ p ∈ m.entries ∧ p.1 ≠ k := by
  rw [(entries_set m k v).mem_iff, mem_cons]
  exact or_congr_right mem_dropKey

theorem mem_keys_set {a : κ} : a ∈ (m.set k v).keys ↔ a = k ∨ a ∈ m.keys := by
  rw [← has_iff, ← has_iff, has, has, get?_set]
  by_cases h : k = a
  · simp [h]
  · simp [h, Ne.symm h]

/-- A new key comes last, a known one stays in its place. -/
theorem keys_set (m : OrderedMap κ ν) (k : κ) (v : ν) :
    (m.set k v).keys = if k ∈ m.keys then m.keys else m.keys ++ [k] := by
  show (setEntry k v m.entries).map Prod.fst = _
  rw [keys]
  induction m.entries with
  | nil => rfl
  | cons p rest ih =>
    obtain ⟨a, x⟩ := p
    rw [setEntry_cons]
    by_cases hak : a = k
    · subst hak
      rw [if_pos rfl, map_cons, map_cons, if_pos (mem_cons_self ..)]
    · rw [if_neg hak, map_cons, map_cons, ih]
      by_cases hk : k ∈ rest.map Prod.fst
      · rw [if_pos hk, if_pos (mem_cons_of_mem _ hk)]
      · rw [if_neg hk, if_neg]
        · rfl
        · intro hmem
          rcases mem_cons.mp hmem with heq | hmem
          · exact hak heq.symm
          · exact hk hmem

theorem mem_keys_delete {a : κ} : a ∈ (m.delete k).keys ↔ a ≠ k ∧ a ∈ m.keys := by
  rw [← has_iff, ← has_iff, has, has, get?_delete]
  by_cases h : a = k
  · simp [h]
  · simp [h]

/-! ## Sizes -/

theorem size_delete_of_mem (h : m.get? k = some v) : (m.delete k).size + 1 = m.size :=
  (entries_of_get? h).length_eq.symm

theorem size_delete_le (m : OrderedMap κ ν) (k : κ) : (m.delete k).size ≤ m.size :=
  length_filter_le ..

theorem size_set_le (m : OrderedMap κ ν) (k : κ) (v : ν) : (m.set k v).size ≤ m.size + 1 := by
  have hlength := (entries_set m k v).length_eq
  rw [size, hlength]
  exact Nat.succ_le_succ (size_delete_le m k)

/-- What the map holds outside the key, read through `g`. -/
def rest (m : OrderedMap κ ν) (k : κ) (g : κ × ν → List β) : List β :=
  (m.delete k).entries.flatMap g

theorem flatMap_set (m : OrderedMap κ ν) (k : κ) (v : ν) (g : κ × ν → List β) :
    ((m.set k v).entries.flatMap g).Perm (g (k, v) ++ m.rest k g) :=
  (entries_set m k v).flatMap_right g

theorem flatMap_of_get? (h : m.get? k = some v) (g : κ × ν → List β) :
    (m.entries.flatMap g).Perm (g (k, v) ++ m.rest k g) :=
  (entries_of_get? h).flatMap_right g

theorem flatMap_of_get?_none (h : m.get? k = none) (g : κ × ν → List β) :
    m.entries.flatMap g = m.rest k g := by
  rw [rest, delete_of_not_mem (get?_eq_none.mp h)]

/-! ## Moving an entry to a new key -/

/-- `m[target] = v; delete m[source]` where `v` came from `m[source]`. -/
def move (m : OrderedMap κ ν) (source target : κ) (v : ν) : OrderedMap κ ν :=
  (m.set target v).delete source

/-- The moved entry under its new key, the others as they were. -/
theorem entries_move {source target : κ} (v : ν) (hne : source ≠ target) (hfree : target ∉ m.keys) :
    (m.move source target v).entries.Perm ((target, v) :: (m.delete source).entries) := by
  have hset : (m.set target v).entries.Perm ((target, v) :: m.entries) := by
    have h := entries_set m target v
    rwa [delete_of_not_mem hfree] at h
  have hdrop := hset.filter (fun p => p.1 ≠ source)
  rwa [filter_cons_of_pos (by simpa using Ne.symm hne)] at hdrop

/-- **A MOVE ONTO ITSELF LOSES THE ENTRY**. -/
theorem entries_move_self (m : OrderedMap κ ν) (k : κ) (v : ν) :
    (m.move k k v).entries.Perm (m.delete k).entries := by
  have hdrop := (entries_set m k v).filter (fun p => p.1 ≠ k)
  rw [filter_cons_of_neg (by simp)] at hdrop
  have hidem : (m.delete k).entries.filter (fun p => p.1 ≠ k)
      = (m.delete k).entries :=
    filter_eq_self.mpr fun p hp =>
      decide_eq_true (mem_dropKey.mp hp).2
  rwa [hidem] at hdrop

/-- Moving is mapping: the entries under a function that renames one key
    and leaves the entries of the other keys alone. -/
theorem entries_move_map {source target : κ} {w : ν}
    {f : κ × ν → κ × ν} (hget : m.get? source = some v)
    (hne : source ≠ target) (hfree : target ∉ m.keys)
    (hsource : f (source, v) = (target, w))
    (hother : ∀ p ∈ m.entries, p.1 ≠ source → f p = p) :
    (m.move source target w).entries.Perm (m.entries.map f) := by
  have hmap : (m.delete source).entries.map f = (m.delete source).entries := by
    refine (map_congr_left ?_).trans (map_id _)
    intro p hp
    obtain ⟨hmem, hpk⟩ := mem_dropKey.mp hp
    exact hother p hmem hpk
  have himage := (entries_of_get? hget).map f
  rw [map_cons, hsource, hmap] at himage
  exact (entries_move w hne hfree).trans himage.symm

end OrderedMap

end N8nOrderedMap
