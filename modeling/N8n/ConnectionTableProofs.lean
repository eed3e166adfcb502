import N8n.OrderedMapProofs

/-! # Nested tables — a map of maps of slots, read as one list

    What is stored by an outer key, an inner key and a position is listed
    here as one list of placed values, each with the place it stands at.
    Pushing a value at a place adds it to that list and changes nothing
    else, whatever has to be created on the way there. -/

namespace N8nConnectionTable

open N8nOrderedMap List OrderedMap

variable {α β γ : Type}

/-- The values at the positions of one inner key; a slot can be `null`. -/
abbrev Slots (γ : Type) := List (Option (List γ))

abbrev InnerTable (β γ : Type) := OrderedMap β (Slots γ)

abbrev Table (α β γ : Type) := OrderedMap α (InnerTable β γ)

/-- A value and the place it stands at. -/
structure Placed (α β γ : Type) where
  outer : α
  inner : β
  index : Nat
  value : γ
deriving DecidableEq

/-- The values of the slots `n`, `n + 1`, …, each placed by `place`. -/
def slotValues {δ : Type} (place : Nat → γ → δ) (n : Nat) (slots : Slots γ) : List δ :=
  (slots.zipIdx n).flatMap fun p => (p.1.getD []).map (place p.2)

def innerValues (a : α) (inner : InnerTable β γ) : List (Placed α β γ) :=
  inner.entries.flatMap fun p => slotValues (Placed.mk a p.1) 0 p.2

/-- All values of the table with their places. -/
def values (table : Table α β γ) : List (Placed α β γ) :=
  table.entries.flatMap fun p => innerValues p.1 p.2

variable {δ : Type}

theorem slotValues_nil (place : Nat → γ → δ) (n : Nat) : slotValues place n [] = [] := rfl

theorem slotValues_cons (place : Nat → γ → δ) (n : Nat) (slot : Option (List γ)) (rest : Slots γ) :
    slotValues place n (slot :: rest)
      = (slot.getD []).map (place n) ++ slotValues place (n + 1) rest := by
  rfl

variable {slots : Slots γ}

theorem mem_slotValues {place : Nat → γ → δ} {n : Nat} {d : δ} :
    d ∈ slotValues place n slots ↔ ∃ i c, c ∈ (slots[i]?.join).getD [] ∧ d = place (n + i) c := by
  induction slots generalizing n with
  | nil => simp [slotValues_nil]
  | cons slot rest ih =>
    rw [slotValues_cons, mem_append, mem_map, ih]
    constructor
    · rintro (⟨c, hc, rfl⟩ | ⟨i, c, hc, rfl⟩)
      · exact ⟨0, c, by simpa using hc, rfl⟩
      · exact ⟨i + 1, c, by simpa using hc, by rw [Nat.add_assoc, Nat.add_comm 1]⟩
    · rintro ⟨i, c, hc, rfl⟩
      cases i with
      | zero => exact .inl ⟨c, by simpa using hc, rfl⟩
      | succ i =>
        exact .inr ⟨i, c, by simpa using hc, by rw [Nat.add_assoc, Nat.add_comm 1]⟩

/-! ## One push -/

/-- `slots[index]?.push(c)`, after padding with empty slots so that the
    index exists. -/
def pushSlot : Slots γ → Nat → γ → Slots γ
  | [], 0, c => [some [c]]
  | [], index + 1, c => some [] :: pushSlot [] index c
  | slot :: rest, 0, c => slot.map (fun l => l ++ [c]) :: rest
  | slot :: rest, index + 1, c => slot :: pushSlot rest index c

/-- No slot is `null`. -/
def Filled (slots : Slots γ) : Prop := ∀ slot ∈ slots, slot ≠ none

theorem filled_nil : Filled ([] : Slots γ) := fun slot hmem => by cases hmem

theorem Filled.pushSlot (h : Filled slots) (index : Nat)
    (c : γ) : Filled (pushSlot slots index c) := by
  induction slots, index, c using pushSlot.induct with
  | case1 c => exact forall_mem_singleton.mpr (Option.some_ne_none _)
  | case2 index c ih =>
    exact forall_mem_cons.mpr ⟨Option.some_ne_none _, ih filled_nil⟩
  | case3 slot rest c =>
    obtain ⟨hslot, hrest⟩ := forall_mem_cons.mp h
    refine forall_mem_cons.mpr ⟨?_, hrest⟩
    exact fun hnone => hslot (Option.map_eq_none_iff.mp hnone)
  | case4 slot rest index c ih =>
    obtain ⟨hslot, hrest⟩ := forall_mem_cons.mp h
    exact forall_mem_cons.mpr ⟨hslot, ih hrest⟩

theorem slotValues_pushSlot (place : Nat → γ → δ) (n : Nat)
    (h : Filled slots) (index : Nat) (c : γ) :
    (slotValues place n (pushSlot slots index c)).Perm
      (place (n + index) c :: slotValues place n slots) := by
  induction slots, index, c using pushSlot.induct generalizing n with
  | case1 c => exact List.Perm.refl _
  | case2 index c ih =>
    have hrest := ih (n + 1) filled_nil
    rwa [Nat.add_assoc, Nat.add_comm 1] at hrest
  | case3 slot rest c =>
    cases slot with
    | none => exact absurd rfl (h none (mem_cons_self ..))
    | some l =>
      rw [pushSlot, slotValues_cons, slotValues_cons]
      simp only [Option.map_some, Option.getD_some, map_append, map_cons,
        map_nil, append_assoc, singleton_append, Nat.add_zero]
      exact perm_middle
  | case4 slot rest index c ih =>
    have hrest := ih (n + 1) (forall_mem_cons.mp h).2
    rw [Nat.add_assoc, Nat.add_comm 1] at hrest
    exact (hrest.append_left _).trans perm_middle

/-! ## Writing into a table -/

section

variable [DecidableEq β]

/-- The slots under a key, `[]` where there are none. -/
def slotsOf (inner : InnerTable β γ) (b : β) : Slots γ := (inner.get? b).getD []

theorem slotsOf_set (inner : InnerTable β γ) (b c : β) (slots : Slots γ) :
    slotsOf (inner.set b slots) c = if b = c then slots else slotsOf inner c := by
  rw [slotsOf, get?_set]
  split <;> rfl

theorem innerValues_perm (a : α) (inner : InnerTable β γ) (b : β) : (innerValues a inner).Perm
      (slotValues (Placed.mk a b) 0 (slotsOf inner b)
        ++ inner.rest b fun p => slotValues (Placed.mk a p.1) 0 p.2) := by
  rw [slotsOf]
  rcases hget : inner.get? b with _ | slots
  · rw [innerValues, flatMap_of_get?_none hget]
    exact List.Perm.refl _
  · exact flatMap_of_get? hget _

theorem innerValues_set (a : α) (inner : InnerTable β γ) (b : β)
    {slots : Slots γ} (new : List (Placed α β γ))
    (h : (slotValues (Placed.mk a b) 0 slots).Perm
      (new ++ slotValues (Placed.mk a b) 0 (slotsOf inner b))) :
    (innerValues a (inner.set b slots)).Perm (new ++ innerValues a inner) := by
  refine (flatMap_set inner b slots _).trans ?_
  refine (h.append_right _).trans ?_
  rw [append_assoc]
  exact (innerValues_perm a inner b).symm.append_left new

theorem mem_innerValues {a : α} {inner : InnerTable β γ} {e : Placed α β γ} :
    e ∈ innerValues a inner ↔ e.outer = a
      ∧ e.value ∈ ((slotsOf inner e.inner)[e.index]?.join).getD [] := by
  rw [innerValues, mem_flatMap]
  constructor
  · rintro ⟨p, hp, he⟩
    obtain ⟨i, c, hc, rfl⟩ := mem_slotValues.mp he
    refine ⟨rfl, ?_⟩
    rw [slotsOf, get?_eq_some.mpr hp, Nat.zero_add]
    exact hc
  · rintro ⟨rfl, he⟩
    rw [slotsOf] at he
    rcases hget : inner.get? e.inner with _ | slots
    · rw [hget] at he
      cases he
    · rw [hget] at he
      exact ⟨(e.inner, slots), get?_eq_some.mp hget,
        mem_slotValues.mpr ⟨e.index, e.value, he, by rw [Nat.zero_add]⟩⟩

end

section

variable [DecidableEq α]

/-- The object under a key, `{}` where there is none. -/
def innerOf (table : Table α β γ) (a : α) : InnerTable β γ := (table.get? a).getD .empty

section

variable (table : Table α β γ) (a : α)

theorem innerOf_set (c : α) (inner : InnerTable β γ) :
    innerOf (table.set a inner) c = if a = c then inner else innerOf table c := by
  rw [innerOf, get?_set]
  split <;> rfl

theorem values_perm : (values table).Perm (innerValues a (innerOf table a)
      ++ table.rest a fun p => innerValues p.1 p.2) := by
  rw [innerOf]
  rcases hget : table.get? a with _ | inner
  · rw [values, flatMap_of_get?_none hget]
    exact List.Perm.refl _
  · exact flatMap_of_get? hget _

theorem values_set {inner : InnerTable β γ} (new : List (Placed α β γ))
    (h : (innerValues a inner).Perm (new ++ innerValues a (innerOf table a))) :
    (values (table.set a inner)).Perm (new ++ values table) := by
  refine (flatMap_set table a inner _).trans ?_
  refine (h.append_right _).trans ?_
  rw [append_assoc]
  exact (values_perm table a).symm.append_left new

end

end

/-! ## Looking a value up -/

section

variable [DecidableEq α] [DecidableEq β]

def valuesAt (table : Table α β γ) (a : α) (b : β) (index : Nat) : List γ :=
  ((slotsOf (innerOf table a) b)[index]?.join).getD []

theorem mem_values {table : Table α β γ} {e : Placed α β γ} :
    e ∈ values table ↔ e.value ∈ valuesAt table e.outer e.inner e.index := by
  rw [values, mem_flatMap, valuesAt, innerOf]
  constructor
  · rintro ⟨p, hp, he⟩
    obtain ⟨hkey, hvalue⟩ := mem_innerValues.mp he
    rw [hkey, get?_eq_some.mpr hp]
    exact hvalue
  · intro he
    rcases hget : table.get? e.outer with _ | inner
    · rw [hget] at he
      cases he
    · rw [hget] at he
      exact ⟨(e.outer, inner), get?_eq_some.mp hget, mem_innerValues.mpr ⟨rfl, he⟩⟩

end

end N8nConnectionTable
