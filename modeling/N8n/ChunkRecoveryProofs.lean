import N8n.ExpressionParserProofs

/-! # Splitting what was joined

    `joinExpression` puts a backslash before the first closing bracket of a
    code chunk, and none before a later one; a text chunk it writes as it
    is.  `splitExpression` then ends a chunk at the first bracket without a
    backslash.

    So a chunk comes back if the reading of it runs into no other such
    bracket: no pair of brackets within the chunk except after a backslash,
    and none that the end of the chunk makes with the bracket that follows
    (`Clear`).  `split_join_iff` shows that these are all the conditions,
    next to those on the shape of the list. -/

namespace N8nChunkRecovery

open N8nTextSearch N8nExpressionParser List

instance (bracket : Char) (t : Text) : Decidable (NoPair bracket t) :=
  inferInstanceAs (Decidable (List.IsChain _ t))

/-- The text has pairs of the bracket only after a backslash, and neither a
    bracket nor a backslash right before the pair that follows it. -/
inductive Clear (bracket : Char) : Text → Prop where
  | last {t : Text} : NoPair bracket (t ++ [bracket]) → ¬ ['\\'] <:+ t → Clear bracket t
  | escaped {pre post : Text} : NoPair bracket pre → Clear bracket post →
      Clear bracket (pre ++ '\\' :: bracket :: bracket :: post)

/-- The text has pairs of opening brackets only after a backslash, and does
    not end right after one. -/
inductive ClearToEnd : Text → Prop where
  | last {t : Text} : t ≠ [] → NoPair '\x7b' t → ClearToEnd t
  | escaped {pre post : Text} : NoPair '\x7b' pre → ClearToEnd post →
      ClearToEnd (pre ++ '\\' :: '\x7b' :: '\x7b' :: post)

/-- The chunks are read as they were written, from a text chunk (or a code
    chunk) on. -/
inductive Recovers : SearchingFor → List ExpressionChunk → Prop where
  | nil : Recovers .openBracket []
  | lastText {t : Text} : ClearToEnd t → Recovers .openBracket [.text t]
  | text {t : Text} {rest : List ExpressionChunk} : Clear '\x7b' t →
      Recovers .closeBracket rest → Recovers .openBracket (.text t :: rest)
  | code {t : Text} {rest : List ExpressionChunk} :
      Clear '\x7d' (escapeTmplExpression t) → Recovers .openBracket rest →
      Recovers .closeBracket (.code t true :: rest)

/-- A code chunk has its closing brackets. -/
def Closed : ExpressionChunk → Prop
  | .text _ => True
  | .code _ hasClosingBrackets => hasClosingBrackets = true

/-! ## What the regular expressions find -/

theorem search_of_failsThrough {α β : Type} {p : List α → Option β}
    {pre post : List α} {b : β} (hfails : FailsThrough p pre post)
    (h : p post = some b) : search p (pre ++ post) = some (pre.length, b) := by
  induction pre with
  | nil =>
    cases post with
    | nil =>
      show (p []).map _ = _
      rw [h]
      rfl
    | cons a post => exact search_cons_of_some h
  | cons a pre ih =>
    have hrest : search p (a :: (pre ++ post)) = _ := search_cons_of_none hfails.1
    rw [cons_append, hrest, ih hfails.2]
    rfl

theorem search_eq_none {α β : Type} {p : List α → Option β} {l : List α}
    (hfails : FailsThrough p l []) (h : p [] = none) : search p l = none := by
  induction l with
  | nil =>
    show (p []).map _ = _
    rw [h]
    rfl
  | cons a rest ih =>
    have hhere := hfails.1
    rw [append_nil] at hhere
    rw [search_cons_of_none hhere, ih hfails.2]
    rfl

theorem FailsThrough.last {α β : Type} {p : List α → Option β} {start post : List α} {a : α}
    (h : FailsThrough p (start ++ [a]) post) : p (a :: post) = none := by
  induction start with
  | nil => exact h.1
  | cons b start ih => exact ih h.2

section

variable {sf : SearchingFor} {a : Char} {pre post : Text}

theorem bracket_ne_backslash (sf : SearchingFor) : sf.bracket ≠ '\\' := by
  cases sf <;> decide

theorem matchAt_escaped : sf.matchAt ('\\' :: sf.bracket :: sf.bracket :: post) = some true := by
  have hpair : ['\\', sf.bracket, sf.bracket].isPrefixOf
      ('\\' :: sf.bracket :: sf.bracket :: post) = true :=
    List.isPrefixOf_iff_prefix.mpr ⟨post, rfl⟩
  rw [SearchingFor.matchAt, if_pos hpair]

theorem matchAt_bracket : sf.matchAt (sf.bracket :: sf.bracket :: post) = some false := by
  have hpair : [sf.bracket, sf.bracket].isPrefixOf (sf.bracket :: sf.bracket :: post) = true :=
    List.isPrefixOf_iff_prefix.mpr ⟨post, rfl⟩
  rw [SearchingFor.matchAt, if_neg, if_pos hpair]
  intro hescaped
  obtain ⟨tail, heq⟩ := List.isPrefixOf_iff_prefix.mp hescaped
  exact bracket_ne_backslash sf (List.cons.inj heq).1.symm

theorem matchAt_none (h : ¬ [sf.bracket, sf.bracket] <+: post)
    (h' : ¬ ['\\', sf.bracket, sf.bracket] <+: post) :
    sf.matchAt post = none := by
  rw [SearchingFor.matchAt, if_neg (mt List.isPrefixOf_iff_prefix.mp h'),
    if_neg (mt List.isPrefixOf_iff_prefix.mp h)]

theorem head_take {tail : Text} (h : pre ++ post = a :: tail) :
    ∃ tail', pre ++ post.take 1 = a :: tail' := by
  cases pre with
  | nil =>
    cases h
    exact ⟨[], rfl⟩
  | cons b pre =>
    cases h
    exact ⟨_, rfl⟩

theorem failsThrough_of_noPair (h : NoPair sf.bracket (pre ++ post.take 1))
    (hlast : ['\\'] <:+ pre → ¬ [sf.bracket, sf.bracket] <+: post) :
    FailsThrough sf.matchAt pre post := by
  induction pre with
  | nil => trivial
  | cons a pre ih =>
    refine ⟨matchAt_none ?_ ?_, ih h.tail fun hend =>
      hlast (hend.trans (suffix_cons a pre))⟩
    · rintro ⟨tail, heq⟩
      obtain ⟨rfl, hrest⟩ := List.cons.inj heq
      obtain ⟨tail', htail⟩ := head_take hrest.symm
      rw [cons_append, htail] at h
      exact h.head
    · rintro ⟨tail, heq⟩
      obtain ⟨rfl, hrest⟩ := List.cons.inj heq
      cases pre with
      | nil => exact hlast (suffix_refl _) ⟨tail, hrest⟩
      | cons b pre =>
        obtain ⟨rfl, hrest'⟩ := List.cons.inj hrest
        obtain ⟨tail', htail⟩ := head_take hrest'.symm
        rw [cons_append, cons_append, htail] at h
        exact h.tail.head

theorem not_pair_prefix_backslash : ¬ [sf.bracket, sf.bracket] <+: '\\' :: post := by
  rintro ⟨tail, heq⟩
  exact bracket_ne_backslash sf (List.cons.inj heq).1

theorem exec_of_escaped (h : NoPair sf.bracket pre) :
    sf.exec (pre ++ '\\' :: sf.bracket :: sf.bracket :: post) = some (pre.length, true) := by
  refine search_of_failsThrough (failsThrough_of_noPair ?_
    fun _ => not_pair_prefix_backslash) matchAt_escaped
  refine isChain_append.mpr ⟨h, isChain_singleton _, ?_⟩
  rintro x - y hy ⟨-, rfl⟩
  exact bracket_ne_backslash sf (Option.some.inj hy).symm

theorem exec_of_bracket (h : NoPair sf.bracket (pre ++ [sf.bracket])) (hlast : ¬ ['\\'] <:+ pre) :
    sf.exec (pre ++ sf.bracket :: sf.bracket :: post) = some (pre.length, false) :=
  search_of_failsThrough (failsThrough_of_noPair h fun hend => absurd hend hlast) matchAt_bracket

theorem exec_of_noPair (h : NoPair sf.bracket pre) : sf.exec pre = none := by
  refine search_eq_none (failsThrough_of_noPair ?_ fun _ hpair => ?_) rfl
  · rw [take_nil, append_nil]
    exact h
  · exact absurd (prefix_nil.mp hpair) (cons_ne_nil _ _)

theorem clear_of_exec {expr : Text} {i : Nat}
    (h : sf.exec expr = some (i, false)) : Clear sf.bracket (expr.take i) := by
  obtain ⟨pre, suf, rfl, rfl, hmatch, hfail⟩ := search_some h
  obtain ⟨post, rfl⟩ := SearchingFor.matchAt_false hmatch
  rw [take_left]
  have hpair := SearchingFor.noPair_of_failsThrough hfail
  refine .last (isChain_append.mpr ⟨hpair, isChain_singleton _, ?_⟩) ?_
  · rintro x hx y - ⟨rfl, -⟩
    obtain ⟨start, rfl⟩ := getLast?_eq_some_iff.mp hx
    have hnone := FailsThrough.last hfail
    rw [matchAt_bracket] at hnone
    cases hnone
  · rintro ⟨start, rfl⟩
    have hnone := FailsThrough.last hfail
    rw [matchAt_escaped] at hnone
    cases hnone

end

/-! ## What is joined is split again -/

section

variable {fuel : Nat} {t pre post : Text}

section

variable (sf : SearchingFor)

theorem splitLoop_escaped (h : NoPair sf.bracket pre)
    (buffer : Text) : splitLoop (fuel + 1) sf buffer
        (pre ++ '\\' :: sf.bracket :: sf.bracket :: post)
      = splitLoop fuel sf (buffer ++ (pre ++ ['\\', sf.bracket, sf.bracket])) post := by
  rw [splitLoop, if_neg (by simp), exec_of_escaped h]
  dsimp only
  rw [take_length_add_append, drop_length_add_append]
  rfl

theorem splitLoop_bracket (h : NoPair sf.bracket (pre ++ [sf.bracket]))
    (hlast : ¬ ['\\'] <:+ pre) (buffer : Text) :
    splitLoop (fuel + 1) sf buffer (pre ++ sf.bracket :: sf.bracket :: post)
      = chunkOf sf (buffer ++ pre) true :: splitLoop fuel sf.other [] post := by
  rw [splitLoop, if_neg (by simp), exec_of_bracket h hlast]
  dsimp only
  rw [take_left, drop_length_add_append]
  rfl

theorem splitLoop_end (hne : t ≠ [])
    (h : NoPair sf.bracket t) (buffer : Text) : splitLoop (fuel + 1) sf buffer t
      = [chunkOf sf (buffer ++ t) false] := by
  rw [splitLoop, if_neg hne, exec_of_noPair h]

theorem splitLoop_clear (h : Clear sf.bracket t) (buffer : Text)
    (hfuel : (t ++ sf.bracket :: sf.bracket :: post).length ≤ fuel) :
    ∃ rest, post.length ≤ rest
      ∧ splitLoop fuel sf buffer (t ++ sf.bracket :: sf.bracket :: post)
        = chunkOf sf (buffer ++ t) true :: splitLoop rest sf.other [] post := by
  induction h generalizing buffer fuel with
  | @last t hpair hend =>
    simp only [length_append, length_cons] at hfuel
    obtain ⟨fuel, rfl⟩ : ∃ n, fuel = n + 1 := ⟨fuel - 1, by omega⟩
    exact ⟨fuel, by omega, splitLoop_bracket sf hpair hend buffer⟩
  | @escaped pre t hpair _ ih =>
    simp only [length_append, length_cons] at hfuel ih
    obtain ⟨fuel, rfl⟩ : ∃ n, fuel = n + 1 := ⟨fuel - 1, by omega⟩
    obtain ⟨rest, hrest, hsplit⟩ := ih
      (buffer ++ (pre ++ ['\\', sf.bracket, sf.bracket])) (by omega : _ ≤ fuel)
    refine ⟨rest, hrest, ?_⟩
    rw [append_assoc]
    refine ((splitLoop_escaped sf hpair buffer).trans hsplit).trans ?_
    simp

end

theorem splitLoop_clearToEnd (h : ClearToEnd t) (buffer : Text)
    (hfuel : t.length ≤ fuel) : splitLoop fuel .openBracket buffer t = [.text (buffer ++ t)] := by
  induction h generalizing buffer fuel with
  | @last t hne hpair =>
    have hpos := length_pos_iff.mpr hne
    obtain ⟨fuel, rfl⟩ : ∃ n, fuel = n + 1 := ⟨fuel - 1, by omega⟩
    exact splitLoop_end .openBracket hne hpair buffer
  | @escaped pre t hpair _ ih =>
    simp only [length_append, length_cons] at hfuel
    obtain ⟨fuel, rfl⟩ : ∃ n, fuel = n + 1 := ⟨fuel - 1, by omega⟩
    refine (splitLoop_escaped .openBracket hpair buffer).trans ?_
    rw [ih _ (by omega)]
    simp only [append_assoc, cons_append, nil_append]
    rfl

end

theorem exists_first_pair {c : Char} {t : Text} (h : ¬ NoPair c t) :
    ∃ pre post, t = pre ++ c :: c :: post ∧ NoPair c pre ∧ ¬ [c] <:+ pre := by
  induction t with
  | nil => exact absurd (noPair_nil c) h
  | cons a t ih =>
    by_cases hpair : [c, c] <+: a :: t
    · obtain ⟨post, hpost⟩ := hpair
      exact ⟨[], post, hpost.symm, noPair_nil c,
        fun hend => absurd (suffix_nil.mp hend) (cons_ne_nil _ _)⟩
    · have hhead : ∀ b rest, t = b :: rest → ¬ (a = c ∧ b = c) := by
        rintro b rest rfl ⟨rfl, rfl⟩
        exact hpair ⟨rest, rfl⟩
      obtain ⟨pre, post, rfl, hpre, hend⟩ := ih fun ht => h (noPair_cons hhead ht)
      refine ⟨a :: pre, post, rfl, noPair_cons ?_ hpre, ?_⟩
      · rintro b rest rfl
        exact hhead b _ rfl
      · intro hsuffix
        rcases suffix_cons_iff.mp hsuffix with heq | hsuffix
        · obtain ⟨rfl, rfl⟩ := List.cons.inj heq
          exact hhead c _ rfl ⟨rfl, rfl⟩
        · exact hend hsuffix

theorem escapeCode_escapeTmplExpression (t : Text) : escapeCode (escapeTmplExpression t) = t := by
  by_cases hpair : NoPair '\x7d' t
  · have hsame : escapeTmplExpression t = t :=
      replaceFirst_pair_of_noPair hpair
    rw [hsame, escapeCode_of_noPair hpair]
  · obtain ⟨pre, post, rfl, hpre, hend⟩ := exists_first_pair hpair
    rw [escapeTmplExpression_escaped hpre hend, escapeCode_escaped hpre]

/-- What the joined chunks are after the bracket that starts them. -/
def joinRest : SearchingFor → List ExpressionChunk → Text
  | .closeBracket, .code t hasClosingBrackets :: rest =>
    escapeTmplExpression t ++ (if hasClosingBrackets then ['\x7d', '\x7d']
      else []) ++ joinExpression rest
  | _, chunks => joinExpression chunks

variable {chunks : List ExpressionChunk} {sf : SearchingFor}

/-- **RECOVERED CHUNKS**: they are read as they were written. -/
theorem Recovers.splitLoop (h : Recovers sf chunks) {fuel : Nat}
    (hfuel : (joinRest sf chunks).length ≤ fuel) :
    splitLoop fuel sf [] (joinRest sf chunks) = chunks := by
  induction h generalizing fuel with
  | nil => cases fuel <;> rfl
  | @lastText t hclear =>
    have hjoin : joinRest .openBracket [.text t] = t := append_nil t
    rw [hjoin] at hfuel ⊢
    exact splitLoop_clearToEnd hclear [] hfuel
  | @text t rest hclear hrest ih =>
    have hjoin : joinRest .openBracket (.text t :: rest)
        = t ++ '\x7b' :: '\x7b' :: joinRest .closeBracket rest := by
      cases hrest
      simp [joinRest, joinExpression, joinChunk]
    rw [hjoin] at hfuel ⊢
    obtain ⟨fuel', hfuel', hsplit⟩ := splitLoop_clear .openBracket hclear [] hfuel
    exact hsplit.trans (congrArg _ (ih hfuel'))
  | @code t rest hclear hrest ih =>
    have hjoin : joinRest .closeBracket (.code t true :: rest)
        = escapeTmplExpression t ++ '\x7d' :: '\x7d' :: joinRest .openBracket rest := by
      simp [joinRest]
    rw [hjoin] at hfuel ⊢
    obtain ⟨fuel', hfuel', hsplit⟩ := splitLoop_clear .closeBracket hclear [] hfuel
    refine (hsplit.trans (congrArg _ (ih hfuel'))).trans ?_
    rw [chunkOf, nil_append, escapeCode_escapeTmplExpression]

/-! ## What is recovered was clear -/

/-- The text is a sequence of escaped pairs, each with text before it. -/
structure Escaped (bracket : Char) (buffer : Text) : Prop where
  clear : ∀ t, Clear bracket t → Clear bracket (buffer ++ t)
  clearToEnd : bracket = '\x7b' → ∀ t, ClearToEnd t → ClearToEnd (buffer ++ t)

theorem escaped_nil (bracket : Char) : Escaped bracket [] := ⟨fun _ h => h, fun _ _ h => h⟩

variable {buffer : Text}

theorem Escaped.append {bracket : Char} {pre : Text}
    (h : Escaped bracket buffer) (hpre : NoPair bracket pre) :
    Escaped bracket (buffer ++ (pre ++ ['\\', bracket, bracket])) := by
  refine ⟨fun t ht => ?_, ?_⟩
  · simpa using h.clear _ (.escaped hpre ht)
  · rintro rfl t ht
    simpa using h.clearToEnd rfl _ (.escaped hpre ht)

/-- **A TEXT THAT IS JOINED BACK** is split into chunks that are
    recovered. -/
theorem recovers_of_rejoins {fresh : Bool} {expr : Text} (h : Rejoins sf fresh expr) {fuel : Nat}
    (hfuel : expr.length ≤ fuel) (hgood : BufferGood sf fresh buffer)
    (hescaped : Escaped sf.bracket buffer)
    (hclosed : ∀ chunk ∈ splitLoop fuel sf buffer expr, Closed chunk) :
    Recovers sf (splitLoop fuel sf buffer expr) := by
  induction h generalizing fuel buffer with
  | finished => cases fuel <;> exact .nil
  | @rest sf fresh expr hne hnone =>
    have hpos := length_pos_iff.mpr hne
    obtain ⟨fuel, rfl⟩ : ∃ n, fuel = n + 1 := ⟨fuel - 1, by omega⟩
    rw [splitLoop, if_neg hne, hnone] at hclosed ⊢
    cases sf with
    | openBracket =>
      exact .lastText (hescaped.clearToEnd rfl _ (.last hne (SearchingFor.exec_none hnone)))
    | closeBracket => exact absurd (hclosed _ (mem_cons_self ..)) Bool.false_ne_true
  | @escaped sf fresh expr i hexec hlast _ ih =>
    obtain ⟨pre, post, rfl, hpair, htakei, htake, hdrop⟩ := SearchingFor.exec_escaped hexec
    simp only [length_append, length_cons] at hfuel
    obtain ⟨fuel, rfl⟩ : ∃ n, fuel = n + 1 := ⟨fuel - 1, by omega⟩
    rw [splitLoop_escaped sf hpair buffer] at hclosed ⊢
    rw [hdrop] at ih
    rw [htakei] at hlast
    exact ih (by omega) (bufferGood_escaped hgood hpair hlast) (hescaped.append hpair) hclosed
  | @bracket sf fresh expr i hexec _ ih =>
    have hclear := clear_of_exec hexec
    obtain ⟨pre, post, rfl, hpair, htake, hdrop⟩ := SearchingFor.exec_bracket hexec
    rw [htake] at hclear
    simp only [length_append, length_cons] at hfuel
    obtain ⟨fuel, rfl⟩ : ∃ n, fuel = n + 1 := ⟨fuel - 1, by omega⟩
    rw [splitLoop, if_neg (by simp), hexec] at hclosed ⊢
    dsimp only at hclosed ⊢
    rw [htake, hdrop] at hclosed ⊢
    rw [hdrop] at ih
    have hrest := ih (by omega) (by cases sf <;> rfl) (escaped_nil _)
      fun chunk hchunk => hclosed chunk (mem_cons_of_mem _ hchunk)
    cases sf with
    | openBracket => exact .text (hescaped.clear _ hclear) hrest
    | closeBracket =>
      refine .code ?_ hrest
      rw [escape_good hgood hpair]
      exact hescaped.clear _ hclear

/-! ## A chunk that is not closed -/

def typeAndText : ExpressionChunk → Bool × Text
  | .text t => (false, t)
  | .code t _ => (true, t)

/-- What a chunk has been read from so far. -/
def Read (sf : SearchingFor) (buffer : Text) : Prop :=
  (∃ fresh, BufferGood sf fresh buffer) ∨ (sf = .closeBracket ∧ BufferShifted buffer)

theorem Read.append {pre : Text} (h : Read sf buffer) (hpair : NoPair sf.bracket pre) :
    Read sf (buffer ++ (pre ++ ['\\', sf.bracket, sf.bracket])) := by
  rcases h with ⟨fresh, hgood⟩ | ⟨rfl, hshift⟩
  · by_cases hlast : sf = .closeBracket → fresh = true → ¬ ['\x7d'] <:+ pre
    · exact .inl ⟨false, bufferGood_escaped hgood hpair hlast⟩
    · simp only [Classical.not_imp, Classical.not_not] at hlast
      obtain ⟨rfl, rfl, pre', rfl⟩ := hlast
      have hbuf : buffer = [] := hgood
      exact .inr ⟨rfl, pre', [], by simp [hbuf, SearchingFor.bracket], hpair⟩
  · exact .inr ⟨rfl, bufferShifted_append hshift _⟩

theorem Read.length_joinChunk {more : Text}
    (h : Read sf buffer) (hmore : NoPair sf.bracket more) (closed : Bool) :
    (joinChunk (chunkOf sf (buffer ++ more) closed)).length
      = (sf.lead ++ buffer ++ more).length
        + if closed then sf.trail.length else 0 := by
  cases sf with
  | openBracket =>
    cases closed <;>
      simp [chunkOf, joinChunk, SearchingFor.lead, SearchingFor.trail]
  | closeBracket =>
    have hlength : (escapeTmplExpression
        (escapeCode (buffer ++ more))).length = (buffer ++ more).length := by
      rcases h with ⟨fresh, hgood⟩ | ⟨-, hshift⟩
      · rw [escape_good hgood hmore]
      · exact (escape_shifted (bufferShifted_append hshift more)).1
    cases closed <;>
      simp [chunkOf, joinChunk, SearchingFor.lead, SearchingFor.trail, hlength]

/-- If the last chunk is not closed, nothing was lost. -/
theorem length_join_of_not_closed {fuel : Nat} {expr : Text} (hread : Read sf buffer)
    (hopen : ∃ chunk ∈ splitLoop fuel sf buffer expr, ¬ Closed chunk) :
    (joinExpression (splitLoop fuel sf buffer expr)).length
      = (sf.lead ++ buffer ++ expr).length := by
  induction fuel generalizing sf buffer expr with
  | zero =>
    obtain ⟨chunk, hchunk, -⟩ := hopen
    cases hchunk
  | succ fuel ih =>
    rw [splitLoop] at hopen ⊢
    by_cases hnil : expr = []
    · rw [if_pos hnil] at hopen
      obtain ⟨chunk, hchunk, -⟩ := hopen
      cases hchunk
    rw [if_neg hnil] at hopen ⊢
    cases hexec : sf.exec expr with
    | none =>
      have hlength := hread.length_joinChunk (SearchingFor.exec_none hexec) false
      simpa [joinExpression] using hlength
    | some r =>
      obtain ⟨i, escape⟩ := r
      rw [hexec] at hopen
      cases escape with
      | true =>
        obtain ⟨pre, post, rfl, hpair, -, htake, hdrop⟩ := SearchingFor.exec_escaped hexec
        dsimp only at hopen ⊢
        rw [htake, hdrop] at hopen ⊢
        rw [ih (hread.append hpair) hopen]
        simp only [length_append, length_cons, length_nil]
        omega
      | false =>
        obtain ⟨pre, post, rfl, hpair, htake, hdrop⟩ := SearchingFor.exec_bracket hexec
        dsimp only at hopen ⊢
        rw [htake, hdrop] at hopen ⊢
        have hlength := hread.length_joinChunk hpair true
        have hrest : ∃ chunk ∈ splitLoop fuel sf.other [] post, ¬ Closed chunk := by
          obtain ⟨chunk, hchunk, hnot⟩ := hopen
          rcases mem_cons.mp hchunk with rfl | hchunk
          · exact absurd (by cases sf <;> trivial) hnot
          · exact ⟨chunk, hchunk, hnot⟩
        have hlater := ih (.inl ⟨true, (by cases sf <;> rfl)⟩) hrest
        rw [joinExpression_cons, length_append, hlength, hlater]
        cases sf <;>
          simp [SearchingFor.lead, SearchingFor.trail, SearchingFor.other] <;> omega

theorem length_joinChunk_le {chunk chunk' : ExpressionChunk}
    (hsame : typeAndText chunk = typeAndText chunk') (hclosed : Closed chunk') :
    (joinChunk chunk).length ≤ (joinChunk chunk').length
      ∧ (¬ Closed chunk → (joinChunk chunk).length < (joinChunk chunk').length) := by
  cases chunk with
  | text t =>
    cases chunk' with
    | text t' =>
      cases hsame
      exact ⟨Nat.le_refl _, fun hnot => absurd trivial hnot⟩
    | code t' closed => cases hsame
  | code t closed =>
    cases chunk' with
    | text t' => cases hsame
    | code t' closed' =>
      cases hsame
      cases hclosed
      cases closed <;> simp [joinChunk, Closed]

section

variable {chunks' : List ExpressionChunk} (hsame : chunks.map typeAndText = chunks'.map typeAndText)
include hsame

theorem length_join_lt (hclosed : ∀ chunk ∈ chunks', Closed chunk) :
    (joinExpression chunks).length ≤ (joinExpression chunks').length
      ∧ ((∃ chunk ∈ chunks, ¬ Closed chunk) →
        (joinExpression chunks).length < (joinExpression chunks').length) := by
  induction chunks generalizing chunks' with
  | nil =>
    rw [map_nil, eq_comm, map_eq_nil_iff] at hsame
    rw [hsame]
    exact ⟨Nat.le_refl _, fun ⟨_, hchunk, _⟩ => (by cases hchunk)⟩
  | cons chunk rest ih =>
    cases chunks' with
    | nil => cases hsame
    | cons chunk' rest' =>
      obtain ⟨hhead, htail⟩ := List.cons.inj hsame
      obtain ⟨hclosed', hrest⟩ := forall_mem_cons.mp hclosed
      obtain ⟨hle, hlt⟩ := length_joinChunk_le hhead hclosed'
      obtain ⟨hles, hlts⟩ := ih htail hrest
      rw [joinExpression_cons, joinExpression_cons, length_append, length_append]
      refine ⟨by omega, ?_⟩
      rintro ⟨open', hopen, hnot⟩
      rcases mem_cons.mp hopen with rfl | hopen
      · have hlt := hlt hnot
        omega
      · have hlt := hlts ⟨open', hopen, hnot⟩
        omega

theorem eq_of_typeAndText (hclosed : ∀ chunk ∈ chunks, Closed chunk)
    (hclosed' : ∀ chunk ∈ chunks', Closed chunk) : chunks = chunks' := by
  induction chunks generalizing chunks' with
  | nil =>
    rw [map_nil, eq_comm, map_eq_nil_iff] at hsame
    exact hsame.symm
  | cons chunk rest ih =>
    cases chunks' with
    | nil => cases hsame
    | cons chunk' rest' =>
      obtain ⟨hhead, htail⟩ := List.cons.inj hsame
      obtain ⟨hfirst, hrest⟩ := forall_mem_cons.mp hclosed
      obtain ⟨hfirst', hrest'⟩ := forall_mem_cons.mp hclosed'
      rw [ih htail hrest hrest']
      congr 1
      cases chunk <;> cases chunk' <;> cases hhead
      · rfl
      · cases hfirst
        cases hfirst'
        rfl

end

/-- **EXACTLY THE CLEAR CHUNKS** are recovered from what was joined. -/
theorem split_join_iff {chunks : List ExpressionChunk} (hclosed : ∀ chunk ∈ chunks, Closed chunk) :
    (splitExpression (joinExpression chunks)).map typeAndText
        = chunks.map typeAndText
      ↔ Recovers .openBracket chunks := by
  constructor
  · intro hsame
    have hall : ∀ chunk ∈ splitExpression (joinExpression chunks), Closed chunk := by
      by_contra hopen
      push Not at hopen
      have hlength := length_join_of_not_closed (.inl ⟨true, rfl⟩ : Read .openBracket []) hopen
      have hlt := (length_join_lt hsame hclosed).2 hopen
      exact absurd hlength (Nat.ne_of_lt hlt)
    have hsplit := eq_of_typeAndText hsame hall hclosed
    have hjoin := (join_splitLoop_iff (joinExpression chunks).length
      .openBracket true [] (joinExpression chunks) (Nat.le_refl _) rfl).mp
      (congrArg joinExpression hsplit)
    have hrecovers := recovers_of_rejoins hjoin (Nat.le_refl _) rfl (escaped_nil _) hall
    rw [← hsplit]
    exact hrecovers
  · intro hrecovers
    exact congrArg (List.map typeAndText) (hrecovers.splitLoop (Nat.le_refl _))

/-- A call of a function between two texts. -/
def oneCall : List ExpressionChunk := [.text "a ".toList, .code "f()".toList true, .text "c".toList]

theorem recovers_oneCall : Recovers .openBracket oneCall := by
  refine .text (.last ?_ ?_) (.code (.last ?_ ?_) (.lastText (.last ?_ ?_)))
  all_goals decide

theorem split_join_oneCall : (∀ chunk ∈ oneCall, Closed chunk)
      ∧ (splitExpression (joinExpression oneCall)).map typeAndText = oneCall.map typeAndText :=
  have hclosed : ∀ chunk ∈ oneCall, Closed chunk :=
    forall_mem_cons.mpr ⟨trivial, forall_mem_cons.mpr
      ⟨rfl, forall_mem_cons.mpr ⟨trivial, forall_mem_nil _⟩⟩⟩
  ⟨hclosed, (split_join_iff hclosed).mpr recovers_oneCall⟩

/-- A call with two strings that hold closing brackets. -/
def twoPairs : List ExpressionChunk := [.text [], .code "f('\x7d\x7d', '\x7d\x7d')".toList true]

/-- The second pair of brackets ends the chunk. -/
theorem not_recovered_twoPairs : (∀ chunk ∈ twoPairs, Closed chunk)
      ∧ (splitExpression (joinExpression twoPairs)).map typeAndText ≠ twoPairs.map typeAndText :=
  ⟨forall_mem_cons.mpr ⟨trivial, forall_mem_cons.mpr ⟨rfl, forall_mem_nil _⟩⟩, by decide⟩

end N8nChunkRecovery
