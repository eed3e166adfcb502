import Mathlib.Data.List.Chain

/-! # Leftmost matches and first-occurrence replacement

    Two operations on sequences that string code is built from: `search`
    runs a matcher at every position and reports the leftmost success with
    its index (a regular expression's `exec`), and `replaceFirst` rewrites
    the first occurrence of a pattern (a string `replace` whose pattern is a
    plain string).  Nothing here depends on the alphabet. -/

namespace N8nTextSearch

open List

variable {α β : Type}

/-- The leftmost position at which the matcher succeeds, and its result. -/
def search (p : List α → Option β) : List α → Option (Nat × β)
  | [] => (p []).map fun b => (0, b)
  | a :: rest =>
    match p (a :: rest) with
    | some b => some (0, b)
    | none => (search p rest).map fun r => (r.1 + 1, r.2)

variable {rest : List α} {p : List α → Option β} {a : α}

theorem search_cons_of_some {b : β} (h : p (a :: rest) = some b) :
    search p (a :: rest) = some (0, b) := by
  unfold search
  rw [h]

theorem search_cons_of_none (h : p (a :: rest) = none) :
    search p (a :: rest) = (search p rest).map fun r => (r.1 + 1, r.2) := by
  rw [search, h]

/-- The matcher fails at every position of `pre` when `post` follows. -/
def FailsThrough (p : List α → Option β) : List α → List α → Prop
  | [], _ => True
  | a :: pre, post => p (a :: pre ++ post) = none ∧ FailsThrough p pre post

theorem search_none : ∀ {s : List α}, search p s = none → FailsThrough p s [] ∧ p [] = none := by
  intro s
  induction s with
  | nil =>
    intro h
    exact ⟨trivial, Option.map_eq_none_iff.mp h⟩
  | cons a rest ih =>
    intro h
    cases hp : p (a :: rest) with
    | some b =>
      rw [search_cons_of_some hp] at h
      cases h
    | none =>
      rw [search_cons_of_none hp] at h
      obtain ⟨hrest, hnil⟩ := ih (Option.map_eq_none_iff.mp h)
      refine ⟨⟨?_, hrest⟩, hnil⟩
      rw [append_nil]
      exact hp

theorem search_some :
    ∀ {s : List α} {i : Nat} {b : β}, search p s = some (i, b) →
      ∃ pre post, s = pre ++ post ∧ pre.length = i ∧ p post = some b ∧ FailsThrough p pre post := by
  intro s
  induction s with
  | nil =>
    intro i b h
    obtain ⟨b', hb', heq⟩ := Option.map_eq_some_iff.mp h
    cases heq
    exact ⟨[], [], rfl, rfl, hb', trivial⟩
  | cons a rest ih =>
    intro i b h
    cases hp : p (a :: rest) with
    | some b' =>
      rw [search_cons_of_some hp] at h
      cases h
      exact ⟨[], a :: rest, rfl, rfl, hp, trivial⟩
    | none =>
      rw [search_cons_of_none hp] at h
      obtain ⟨r, hr, heq⟩ := Option.map_eq_some_iff.mp h
      cases heq
      obtain ⟨pre, post, rfl, hlen, hpost, hfail⟩ := ih hr
      refine ⟨a :: pre, post, rfl, ?_, hpost, ⟨hp, hfail⟩⟩
      rw [length_cons, hlen]

/-! ## Replacing the first occurrence -/

variable [DecidableEq α]

/-- Whether `pattern` occurs in the text. -/
def includes (pattern text : List α) : Bool :=
  (search (fun rest => if pattern.isPrefixOf rest then some () else none) text).isSome

/-- Rewrite the first occurrence of `pattern`, if there is one. -/
def replaceFirst (pattern replacement : List α) : List α → List α
  | [] => if pattern = [] then replacement else []
  | a :: rest =>
    if pattern.isPrefixOf (a :: rest) then
      replacement ++ (a :: rest).drop pattern.length
    else a :: replaceFirst pattern replacement rest

variable {pattern replacement : List α}

theorem replaceFirst_cons_of_not_starts (h : ¬ pattern <+: a :: rest) :
    replaceFirst pattern replacement (a :: rest) = a :: replaceFirst pattern replacement rest := by
  rw [replaceFirst, if_neg]
  rwa [List.isPrefixOf_iff_prefix]

theorem replaceFirst_append (hne : pattern ≠ []) (post : List α) :
    replaceFirst pattern replacement (pattern ++ post) = replacement ++ post := by
  cases pattern with
  | nil => exact absurd rfl hne
  | cons a pattern =>
    rw [cons_append, replaceFirst, if_pos, ← cons_append, drop_left]
    rw [List.isPrefixOf_iff_prefix, ← cons_append]
    exact prefix_append _ _

/-- The pattern occurs at no position of `pre` when `post` follows. -/
def NoOccurrence (pattern : List α) : List α → List α → Prop
  | [], _ => True
  | a :: pre, post => ¬ pattern <+: a :: (pre ++ post) ∧ NoOccurrence pattern pre post

theorem replaceFirst_of_noOccurrence {post : List α} :
    ∀ {pre : List α}, NoOccurrence pattern pre post → replaceFirst pattern replacement (pre ++ post)
        = pre ++ replaceFirst pattern replacement post := by
  intro pre
  induction pre with
  | nil => intro _; rfl
  | cons a pre ih =>
    intro h
    rw [cons_append, replaceFirst_cons_of_not_starts h.1, ih h.2]
    rfl

/-! ## Sequences without an adjacent pair -/

/-- No two neighbours of the sequence are both `c`. -/
def NoPair (c : α) (s : List α) : Prop := s.IsChain fun a b => ¬ (a = c ∧ b = c)

omit [DecidableEq α] in
theorem noPair_nil (c : α) : NoPair c [] := List.IsChain.nil

variable {s : List α} {c : α}

omit [DecidableEq α] in
theorem noPair_cons (hhead : ∀ b rest, s = b :: rest → ¬ (a = c ∧ b = c))
    (h : NoPair c s) : NoPair c (a :: s) := by
  cases s with
  | nil => exact isChain_singleton a
  | cons b rest => exact isChain_cons_cons.mpr ⟨hhead b rest rfl, h⟩

omit [DecidableEq α] in
theorem NoPair.tail (h : NoPair c (a :: s)) : NoPair c s := by
  cases s with
  | nil => exact noPair_nil c
  | cons b rest => exact (isChain_cons_cons.mp h).2

omit [DecidableEq α] in
theorem NoPair.head (h : NoPair c (c :: c :: s)) : False := (isChain_cons_cons.mp h).1 ⟨rfl, rfl⟩

omit [DecidableEq α] in
theorem NoPair.left {t : List α} (h : NoPair c (s ++ t)) : NoPair c s := (isChain_append.mp h).1

omit [DecidableEq α] in
theorem NoPair.right {t : List α} (h : NoPair c (s ++ t)) : NoPair c t := (isChain_append.mp h).2.1

theorem replaceFirst_pair_of_noPair :
    ∀ {s : List α}, NoPair c s → replaceFirst [c, c] replacement s = s := by
  intro s
  induction s with
  | nil => intro _; rfl
  | cons a rest ih =>
    intro h
    rw [replaceFirst_cons_of_not_starts, ih h.tail]
    rintro ⟨post, heq⟩
    rw [← heq] at h
    exact h.head

end N8nTextSearch
