import N8n.PlainObjectsProofs

/-! # Clients — what is told apart through references

    A client holds references to objects and asks one request after the
    other.  What it is answered names an object by the place it has among
    those the client has seen, so that two worlds can be compared in which
    the references are different things.

    Two worlds that stay related request by request give every client the
    same answers (`Simulates.run`).  The order of keys is left out. -/

namespace N8nObjectClients

open N8nOrderedMap N8nPlainObjects List

variable {R Q P V W : Type}

/-! ## Data -/

/-- The data `augmentObject` and `augmentArray` are for: an object without a
    member `constructor`, or an array of elements. -/
def Plain : Node R P → Prop
  | .object members => ∀ k ∈ members.keys, k.1 ≠ "constructor"
  | .array data => data.spread = data
  | _ => False

theorem plain_map (f : R → Q) {x : Node R P} (h : Plain x) : Plain (x.map f) := by
  cases x with
  | object members =>
    intro k hk
    rw [keys_mapValues] at hk
    exact h k hk
  | array data =>
    show (data.map f).spread = data.map f
    rw [ArrayData.spread_map, show data.spread = data from h]
  | date | regexp | bytes => exact h.elim

/-- A tree of plain objects and arrays, numbered; no object of it is the
    member of two objects or two times a member of one. -/
structure Source (P : Type) where
  nodes : List (Node Nat P)
  root : Nat
  root_lt : root < nodes.length
  plain : ∀ x ∈ nodes, Plain x
  closed : ∀ x ∈ nodes, ∀ k r, x.own? k = some (.ref r) → r < nodes.length
  root_free : ∀ x ∈ nodes, ∀ k, x.own? k ≠ some (.ref root)
  single : ∀ (m n : Nat) x y k l r, nodes[m]? = some x → nodes[n]? = some y →
    x.own? k = some (.ref r) → y.own? l = some (.ref r) → m = n ∧ k = l

/-! ## Requests -/

/-- What a client asks of an object.  The value of `set` is a primitive value
    or an object it holds, the one of `setNew` is made there. -/
inductive Request (R P : Type) where
  | get (r : R) (k : Key)
  | set (r : R) (k : Key) (v : Value R P)
  | setNew (r : R) (k : Key) (d : Source P)
  | deleteProperty (r : R) (k : Key)
  | has (r : R) (k : Key)
  | ownKeys (r : R)
  | getOwnPropertyDescriptor (r : R) (k : Key)

inductive Reply (R P : Type) where
  | lookup (l : Lookup R P)
  | flag (b : Bool)
  | keys (l : List String)
  | descriptor (d : Option (Value R P))

def Request.map (f : R → Q) : Request R P → Request Q P
  | .get r k => .get (f r) k
  | .set r k v => .set (f r) k (v.map f)
  | .setNew r k d => .setNew (f r) k d
  | .deleteProperty r k => .deleteProperty (f r) k
  | .has r k => .has (f r) k
  | .ownKeys r => .ownKeys (f r)
  | .getOwnPropertyDescriptor r k => .getOwnPropertyDescriptor (f r) k

def valueRefs : Value R P → List R
  | .prim _ => []
  | .ref r => [r]

/-- The references a request is made with. -/
def Request.refs : Request R P → List R
  | .get r _ | .setNew r _ _ | .deleteProperty r _ | .has r _ | .ownKeys r
  | .getOwnPropertyDescriptor r _ => [r]
  | .set r _ v => r :: valueRefs v

/-- The references a reply hands out.  A descriptor hands out none. -/
def Reply.refs : Reply R P → List R
  | .lookup (.value v) => valueRefs v
  | _ => []

def primitive? : Value R P → Option (Primitive P)
  | .prim p => some p
  | .ref _ => none

/-- Two replies that a client takes for the same. -/
inductive Reply.Matches (f : R → Q) : Reply R P → Reply Q P → Prop where
  | lookup (l : Lookup R P) : Matches f (.lookup l) (.lookup (l.map f))
  | flag (b : Bool) : Matches f (.flag b) (.flag b)
  | keys {l l' : List String} (h : l.Perm l') : Matches f (.keys l) (.keys l')
  | descriptor {d : Option (Value R P)} {d' : Option (Value Q P)}
      (h : d.map primitive? = d'.map primitive?) :
      Matches f (.descriptor d) (.descriptor d')

/-! ## Runs -/

/-- An answer, with the objects by their place among those seen. -/
inductive Answer (P : Type) where
  | lookup (l : Lookup Nat P)
  | flag (b : Bool)
  | keys (l : List String)
  | descriptor (d : Option (Option (Primitive P)))

def Answer.Same : Answer P → Answer P → Prop
  | .keys l, .keys l' => l.Perm l'
  | a, a' => a = a'

section

variable [DecidableEq R] [DecidableEq Q]

def Reply.name (seen : List R) : Reply R P → Answer P
  | .lookup l => .lookup (l.map fun r => seen.idxOf r)
  | .flag b => .flag b
  | .keys l => .keys l
  | .descriptor d => .descriptor (d.map primitive?)

/-- The objects seen after a reply. -/
def see (seen : List R) (refs : List R) : List R :=
  refs.foldl (fun seen r => if r ∈ seen then seen else seen ++ [r]) seen

/-- The request with the objects that the places stand for. -/
def resolve (seen : List R) : Request Nat P → Option (Request R P)
  | .get h k => seen[h]?.map fun r => .get r k
  | .set h k (.prim p) => seen[h]?.map fun r => .set r k (.prim p)
  | .set h k (.ref h') =>
    seen[h]?.bind fun r => seen[h']?.map fun r' => .set r k (.ref r')
  | .setNew h k d => seen[h]?.map fun r => .setNew r k d
  | .deleteProperty h k => seen[h]?.map fun r => .deleteProperty r k
  | .has h k => seen[h]?.map fun r => .has r k
  | .ownKeys h => seen[h]?.map fun r => .ownKeys r
  | .getOwnPropertyDescriptor h k => seen[h]?.map fun r => .getOwnPropertyDescriptor r k

/-- A world, and the objects of it that the client has seen. -/
structure State (W R : Type) where
  world : W
  seen : List R

variable (respond : W → Request R P → Reply R P × W)

/-- One request.  Without an object to ask there is no answer. -/
def step (s : State W R) (op : Request Nat P) : Option (Answer P) × State W R :=
  match resolve s.seen op with
  | none => (none, s)
  | some q =>
    let (reply, world) := respond s.world q
    (some (reply.name s.seen), ⟨world, see s.seen reply.refs⟩)

def run (s : State W R) :
    List (Request Nat P) → List (Option (Answer P)) × State W R
  | [] => ([], s)
  | op :: ops =>
    let (answer, s) := step respond s op
    let (answers, s) := run s ops
    (answer :: answers, s)

/-- Every request of the run is allowed where it is made. -/
def Allowed (Allows : W → Request R P → Prop) (s : State W R) :
    List (Request Nat P) → Prop
  | [] => True
  | op :: ops =>
    (∀ q, resolve s.seen op = some q → Allows s.world q) ∧ Allowed Allows (step respond s op).2 ops

end

/-! ## Related worlds -/

theorem Reply.Matches.refs {f : R → Q} {a : Reply R P} {a' : Reply Q P}
    (h : a.Matches f a') : a'.refs = a.refs.map f := by
  cases h with
  | lookup l => rcases l with (_ | _) | _ <;> rfl
  | flag | keys | descriptor => rfl

theorem resolve_map (f : R → Q) (seen : List R) (op : Request Nat P) :
    resolve (seen.map f) op = (resolve seen op).map (Request.map f) := by
  cases op with
  | set h k v =>
    cases v with
    | prim p =>
      rw [resolve, resolve, getElem?_map, Option.map_map, Option.map_map]
      rfl
    | ref h' =>
      rw [resolve, resolve, getElem?_map, getElem?_map]
      rcases seen[h]? with _ | r
      · rfl
      · rcases seen[h']? with _ | r' <;> rfl
  | get | setNew | deleteProperty | has | ownKeys | getOwnPropertyDescriptor =>
    rw [resolve, resolve, getElem?_map, Option.map_map, Option.map_map]
    rfl

theorem resolve_refs {seen : List R} {op : Request Nat P}
    {q : Request R P} (h : resolve seen op = some q) :
    ∀ r ∈ q.refs, r ∈ seen := by
  intro r hr
  cases op with
  | set i k v =>
    cases v with
    | prim p =>
      obtain ⟨r', hr', rfl⟩ := Option.map_eq_some_iff.mp h
      obtain rfl := mem_singleton.mp hr
      exact mem_of_getElem? hr'
    | ref j =>
      obtain ⟨r', hr', h⟩ := Option.bind_eq_some_iff.mp h
      obtain ⟨r'', hr'', rfl⟩ := Option.map_eq_some_iff.mp h
      rcases mem_cons.mp hr with rfl | hr
      · exact mem_of_getElem? hr'
      · obtain rfl := mem_singleton.mp hr
        exact mem_of_getElem? hr''
  | get | setNew | deleteProperty | has | ownKeys | getOwnPropertyDescriptor =>
    obtain ⟨r', hr', rfl⟩ := Option.map_eq_some_iff.mp h
    obtain rfl := mem_singleton.mp hr
    exact mem_of_getElem? hr'

section

variable [DecidableEq R] [DecidableEq Q]

variable {seen : List R}

theorem idxOf_map {f : R → Q} {r : R} (hinj : ∀ r' ∈ seen, f r' = f r → r' = r) :
    (seen.map f).idxOf (f r) = seen.idxOf r := by
  induction seen with
  | nil => rfl
  | cons r' seen ih =>
    rw [map_cons, idxOf_cons, idxOf_cons, ih fun q hq => hinj q (mem_cons_of_mem _ hq)]
    by_cases heq : r' = r
    · rw [heq, beq_self_eq_true, beq_self_eq_true]
    · have hne : f r' ≠ f r :=
        fun h => heq (hinj r' (mem_cons_self ..) h)
      rw [beq_false_of_ne heq, beq_false_of_ne hne]

theorem mem_see {refs : List R} {r : R} : r ∈ see seen refs ↔ r ∈ seen ∨ r ∈ refs := by
  induction refs generalizing seen with
  | nil => simp [see]
  | cons r' refs ih =>
    rw [see, foldl_cons]
    refine ih.trans ?_
    split
    · next hmem =>
        rw [mem_cons]
        constructor
        · rintro (h | h)
          · exact .inl h
          · exact .inr (.inr h)
        · rintro (h | rfl | h)
          · exact .inl h
          · exact .inl hmem
          · exact .inr h
    · rw [mem_append, mem_singleton, mem_cons, or_assoc]

theorem see_map {f : R → Q} {refs : List R}
    (hinj : ∀ r ∈ see seen refs, ∀ r' ∈ see seen refs, f r' = f r → r' = r) :
    see (seen.map f) (refs.map f) = (see seen refs).map f := by
  induction refs generalizing seen with
  | nil => rfl
  | cons r refs ih =>
    have hmem : f r ∈ seen.map f ↔ r ∈ seen := by
      constructor
      · intro h
        obtain ⟨r', hr', heq⟩ := mem_map.mp h
        have hr : r ∈ see seen (r :: refs) := mem_see.mpr (.inr (mem_cons_self ..))
        exact hinj r hr r' (mem_see.mpr (.inl hr')) heq ▸ hr'
      · exact mem_map_of_mem
    have hnext : (if f r ∈ seen.map f then seen.map f
        else seen.map f ++ [f r]) = (if r ∈ seen then seen else seen ++ [r]).map f := by
      by_cases h : r ∈ seen
      · rw [if_pos h, if_pos (hmem.mpr h)]
      · rw [if_neg h, if_neg (mt hmem.mp h), map_append, map_singleton]
    show see (if f r ∈ seen.map f then seen.map f
      else seen.map f ++ [f r]) (refs.map f) = _
    rw [hnext]
    exact ih hinj

theorem Reply.Matches.same {f : R → Q} {a : Reply R P} {a' : Reply Q P} (h : a.Matches f a')
    (hinj : ∀ r ∈ a.refs, ∀ r' ∈ seen, f r' = f r → r' = r) :
    (a.name seen).Same (a'.name (seen.map f)) := by
  cases h with
  | lookup l =>
    rcases l with (p | r) | ofArray
    · rfl
    · have hidx := idxOf_map (hinj r (mem_singleton_self r))
      exact congrArg (Answer.lookup ∘ Lookup.value ∘ Value.ref) hidx.symm
    · rfl
  | flag b => rfl
  | keys hperm => exact hperm
  | descriptor heq => exact congrArg Answer.descriptor heq

end

/-- Two worlds that stay related under requests made with visible
    references. -/
structure Simulates (respond : W → Request R P → Reply R P × W)
    (respond' : V → Request Q P → Reply Q P × V)
    (Allows : V → Request Q P → Prop) (f : R → Q) (Sim : W → V → Prop)
    (Visible : W → V → R → Prop) : Prop where
  injective {w : W} {v : V} {r r' : R} : Sim w v → Visible w v r →
    Visible w v r' → f r' = f r → r' = r
  sim {w : W} {v : V} {q : Request R P} : Sim w v →
    (∀ r ∈ q.refs, Visible w v r) → Allows v (q.map f) →
      Sim (respond w q).2 (respond' v (q.map f)).2
  mono {w : W} {v : V} {q : Request R P} : Sim w v →
    (∀ r ∈ q.refs, Visible w v r) → Allows v (q.map f) →
      ∀ r, Visible w v r ∨ r ∈ (respond w q).1.refs →
        Visible (respond w q).2 (respond' v (q.map f)).2 r
  replies {w : W} {v : V} {q : Request R P} : Sim w v →
    (∀ r ∈ q.refs, Visible w v r) → Allows v (q.map f) →
      (respond w q).1.Matches f (respond' v (q.map f)).1

section

variable [DecidableEq R] [DecidableEq Q]
variable {respond : W → Request R P → Reply R P × W}
  {respond' : V → Request Q P → Reply Q P × V}
  {Allows : V → Request Q P → Prop} {f : R → Q} {Sim : W → V → Prop}
  {Visible : W → V → R → Prop}

/-- What two states of a client have in common. -/
structure Agree (f : R → Q) (Sim : W → V → Prop)
    (Visible : W → V → R → Prop) (s : State W R) (t : State V Q) : Prop where
  sim : Sim s.world t.world
  seen : t.seen = s.seen.map f
  visible : ∀ r ∈ s.seen, Visible s.world t.world r

section

variable {s : State W R} {t : State V Q}
  (h : Simulates respond respond' Allows f Sim Visible) (hagree : Agree f Sim Visible s t)
include h hagree

theorem Simulates.step {op : Request Nat P}
    (hallowed : ∀ q, resolve t.seen op = some q → Allows t.world q) :
    Option.Rel Answer.Same (step respond s op).1 (step respond' t op).1 ∧
      Agree f Sim Visible (step respond s op).2 (step respond' t op).2 := by
  obtain ⟨hsim, hseen, hvisible⟩ := hagree
  obtain ⟨w, seen⟩ := s
  obtain ⟨v, _⟩ := t
  subst hseen
  rw [N8nObjectClients.step, N8nObjectClients.step]
  rw [resolve_map] at hallowed ⊢
  rcases hq : resolve seen op with _ | q
  · exact ⟨.none, hsim, rfl, hvisible⟩
  · have hrefs : ∀ r ∈ q.refs, Visible w v r :=
      fun r hr => hvisible r (resolve_refs hq r hr)
    have hallow : Allows v (q.map f) := hallowed _ (by rw [hq]; rfl)
    have hnext := h.sim hsim hrefs hallow
    have hmono := h.mono hsim hrefs hallow
    have hmatch := h.replies hsim hrefs hallow
    have hall : ∀ r ∈ see seen (respond w q).1.refs,
        Visible (respond w q).2 (respond' v (q.map f)).2 r := by
      intro r hr
      rcases mem_see.mp hr with hr | hr
      · exact hmono r (.inl (hvisible r hr))
      · exact hmono r (.inr hr)
    have hinj : ∀ r ∈ see seen (respond w q).1.refs,
        ∀ r' ∈ see seen (respond w q).1.refs, f r' = f r → r' = r :=
      fun r hr r' hr' => h.injective hnext (hall r hr) (hall r' hr')
    refine ⟨.some (hmatch.same fun r hr r' hr' => hinj r
      (mem_see.mpr (.inr hr)) r' (mem_see.mpr (.inl hr'))), hnext, ?_, hall⟩
    show see (seen.map f) (respond' v (q.map f)).1.refs = _
    rw [hmatch.refs, see_map hinj]

/-- **THE SAME ANSWERS**: a client cannot tell the two worlds apart, and they
    stay related. -/
theorem Simulates.run {ops : List (Request Nat P)} (hallowed : Allowed respond' Allows t ops) :
    List.Forall₂ (Option.Rel Answer.Same) (run respond s ops).1 (run respond' t ops).1 ∧
      Agree f Sim Visible (run respond s ops).2 (run respond' t ops).2 := by
  induction ops generalizing s t with
  | nil => exact ⟨.nil, hagree⟩
  | cons op ops ih =>
    obtain ⟨hfirst, hrest⟩ := hallowed
    obtain ⟨hanswer, hnext⟩ := h.step hagree hfirst
    obtain ⟨hanswers, hlast⟩ := ih hnext hrest
    exact ⟨.cons hanswer hanswers, hlast⟩

end

end

end N8nObjectClients
