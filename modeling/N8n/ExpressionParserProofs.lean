import N8n.TextSearchProofs

/-! # Splitting an expression into chunks and joining it again

    `splitExpression` cuts a string at unescaped brackets into text and code
    chunks; `joinExpression` puts the chunks together.  A code chunk drops
    the backslash of its first escaped closing bracket and gets it back when
    it is joined.

    Joining does not always give the string back.  The loop stops when the
    index reaches the end of the string, and whatever is still in the buffer
    at that point never becomes a chunk: an opening bracket at the very end
    and everything before an escaped bracket at the very end get lost.  And
    the backslash is put back before the first `}}` of the chunk, which is
    one character too early when a `}` stands right before the escaped
    bracket.  `Rejoins` describes the strings free of both, and
    `join_split_iff` proves that they are exactly the lossless ones. -/

namespace N8nExpressionParser

open N8nTextSearch List

/-- A string, as the list of its characters. -/
abbrev Text := List Char

inductive ExpressionChunk where
  | text (text : Text)
  | code (text : Text) (hasClosingBrackets : Bool)

/-- `searchingFor`, which always agrees with `activeRegex`. -/
inductive SearchingFor where
  | openBracket
  | closeBracket
deriving DecidableEq

namespace SearchingFor

def bracket : SearchingFor → Char
  | .openBracket => '{'
  | .closeBracket => '}'

/-- `OPEN_BRACKET` or `CLOSE_BRACKET` at the start of the text: a backslash
    is tried first, and the result says whether `escape` is not empty. -/
def matchAt (sf : SearchingFor) (expr : Text) : Option Bool :=
  if ['\\', sf.bracket, sf.bracket].isPrefixOf expr then some true
  else if [sf.bracket, sf.bracket].isPrefixOf expr then some false
  else none

/-- `activeRegex.exec(expr)`: the index of the match and its escape. -/
def exec (sf : SearchingFor) (expr : Text) : Option (Nat × Bool) := search sf.matchAt expr

def other : SearchingFor → SearchingFor
  | .openBracket => .closeBracket
  | .closeBracket => .openBracket

end SearchingFor

/-- `text.replace('\\}}', '}}')`, which rewrites one occurrence. -/
def escapeCode (text : Text) : Text :=
  replaceFirst ['\\', '}', '}'] ['}', '}'] text

/-- The chunk made from the buffer. -/
def chunkOf : SearchingFor → Text → Bool → ExpressionChunk
  | .openBracket, buffer, _ => .text buffer
  | .closeBracket, buffer, closed => .code (escapeCode buffer) closed

/-- The `while` loop, with `expr` for the rest of the expression from
    `index` on.  Every round consumes two or more characters, so the length
    of the expression is enough fuel. -/
def splitLoop : Nat → SearchingFor → Text → Text → List ExpressionChunk
  | 0, _, _, _ => []
  | fuel + 1, sf, buffer, expr =>
    if expr = [] then []
    else
      match sf.exec expr with
      | none => [chunkOf sf (buffer ++ expr) false]
      | some (i, true) =>
        splitLoop fuel sf (buffer ++ expr.take (i + 3)) (expr.drop (i + 3))
      | some (i, false) =>
        chunkOf sf (buffer ++ expr.take i) true :: splitLoop fuel sf.other [] (expr.drop (i + 2))

def splitExpression (expression : Text) : List ExpressionChunk :=
  splitLoop expression.length .openBracket [] expression

/-- Expressions only have closing brackets escaped. -/
def escapeTmplExpression (part : Text) : Text :=
  replaceFirst ['}', '}'] ['\\', '}', '}'] part

def joinChunk : ExpressionChunk → Text
  | .text text => text
  | .code text hasClosingBrackets =>
    ['{', '{'] ++ escapeTmplExpression text ++ if hasClosingBrackets then ['}', '}'] else []

def joinExpression (parts : List ExpressionChunk) : Text := (parts.map joinChunk).flatten

/-! ## The strings that are joined back -/

/-- Reading on from `expr`, nothing gets lost.  `fresh` says that the
    current chunk has no escaped bracket so far.

    The expression may end where no chunk is under way, or inside a chunk
    that still has text after its last escaped bracket; and the first
    escaped closing bracket of a code chunk must not follow a `}`. -/
inductive Rejoins : SearchingFor → Bool → Text → Prop where
  | finished : Rejoins .openBracket true []
  | rest {sf : SearchingFor} {fresh : Bool} {expr : Text} :
      expr ≠ [] → sf.exec expr = none → Rejoins sf fresh expr
  | escaped {sf : SearchingFor} {fresh : Bool} {expr : Text} {i : Nat} :
      sf.exec expr = some (i, true) →
      (sf = .closeBracket → fresh = true → ¬ ['}'] <:+ expr.take i) →
      Rejoins sf false (expr.drop (i + 3)) → Rejoins sf fresh expr
  | bracket {sf : SearchingFor} {fresh : Bool} {expr : Text} {i : Nat} :
      sf.exec expr = some (i, false) →
      Rejoins sf.other true (expr.drop (i + 2)) → Rejoins sf fresh expr

variable {fresh : Bool} {sf : SearchingFor}

theorem rejoins_escaped_iff {expr : Text} {i : Nat} (h : sf.exec expr = some (i, true)) :
    Rejoins sf fresh expr ↔
      (sf = .closeBracket → fresh = true → ¬ ['}'] <:+ expr.take i) ∧
      Rejoins sf false (expr.drop (i + 3)) := by
  constructor
  · intro hr
    cases hr with
    | finished => cases h
    | rest _ hnone => rw [h] at hnone; cases hnone
    | escaped h' hlast hr' =>
      rw [h] at h'
      cases h'
      exact ⟨hlast, hr'⟩
    | bracket h' => rw [h] at h'; cases h'
  · rintro ⟨hlast, hr⟩
    exact .escaped h hlast hr

theorem rejoins_bracket_iff {expr : Text} {i : Nat} (h : sf.exec expr = some (i, false)) :
    Rejoins sf fresh expr ↔ Rejoins sf.other true (expr.drop (i + 2)) := by
  constructor
  · intro hr
    cases hr with
    | finished => cases h
    | rest _ hnone => rw [h] at hnone; cases hnone
    | escaped h' => rw [h] at h'; cases h'
    | bracket h' hr' =>
      rw [h] at h'
      cases h'
      exact hr'
  · intro hr
    exact .bracket h hr

/-! ## What the regular expressions find -/

namespace SearchingFor

variable {sf : SearchingFor} {expr : Text}

theorem matchAt_true (h : sf.matchAt expr = some true) :
    ∃ post, expr = '\\' :: sf.bracket :: sf.bracket :: post := by
  unfold matchAt at h
  split at h
  · rename_i hpre
    obtain ⟨post, heq⟩ := List.isPrefixOf_iff_prefix.mp hpre
    exact ⟨post, heq.symm⟩
  · split at h
    · exact absurd h (by decide)
    · cases h

theorem matchAt_false (h : sf.matchAt expr = some false) :
    ∃ post, expr = sf.bracket :: sf.bracket :: post := by
  unfold matchAt at h
  split at h
  · exact absurd h (by decide)
  · split at h
    · rename_i hpre
      obtain ⟨post, heq⟩ := List.isPrefixOf_iff_prefix.mp hpre
      exact ⟨post, heq.symm⟩
    · cases h

theorem matchAt_pair (sf : SearchingFor) (post : Text) :
    sf.matchAt (sf.bracket :: sf.bracket :: post) ≠ none := by
  unfold matchAt
  split
  · intro h
    cases h
  · rw [if_pos]
    · intro h
      cases h
    · rw [List.isPrefixOf_iff_prefix]
      exact ⟨post, rfl⟩

theorem noPair_of_failsThrough {post : Text} :
    ∀ {pre : Text}, FailsThrough sf.matchAt pre post → NoPair sf.bracket pre := by
  intro pre
  induction pre with
  | nil => intro _; exact noPair_nil _
  | cons a pre ih =>
    intro h
    refine noPair_cons ?_ (ih h.2)
    rintro b rest rfl ⟨rfl, rfl⟩
    exact matchAt_pair sf _ h.1

theorem exec_none (h : sf.exec expr = none) : NoPair sf.bracket expr :=
  noPair_of_failsThrough (search_none h).1

theorem exec_escaped {i : Nat} (h : sf.exec expr = some (i, true)) :
    ∃ pre post, expr = pre ++ '\\' :: sf.bracket :: sf.bracket :: post ∧
      NoPair sf.bracket pre ∧ expr.take i = pre ∧
      expr.take (i + 3) = pre ++ ['\\', sf.bracket, sf.bracket] ∧ expr.drop (i + 3) = post := by
  obtain ⟨pre, suf, rfl, hlen, hmatch, hfail⟩ := search_some h
  obtain ⟨post, rfl⟩ := matchAt_true hmatch
  subst hlen
  refine ⟨pre, post, rfl, noPair_of_failsThrough hfail, ?_, ?_, ?_⟩
  · exact take_left
  · rw [take_length_add_append]
    rfl
  · rw [drop_length_add_append]
    rfl

theorem exec_bracket {i : Nat} (h : sf.exec expr = some (i, false)) :
    ∃ pre post, expr = pre ++ sf.bracket :: sf.bracket :: post ∧
      NoPair sf.bracket pre ∧ expr.take i = pre ∧ expr.drop (i + 2) = post := by
  obtain ⟨pre, suf, rfl, hlen, hmatch, hfail⟩ := search_some h
  obtain ⟨post, rfl⟩ := matchAt_false hmatch
  subst hlen
  refine ⟨pre, post, rfl, noPair_of_failsThrough hfail, ?_, ?_⟩
  · exact take_left
  · rw [drop_length_add_append]
    rfl

end SearchingFor

/-! ## Unescaping a buffer and escaping it again -/

variable {pre : Text}

theorem escapeCode_escaped (h : NoPair '}' pre)
    (post : Text) :
    escapeCode (pre ++ '\\' :: '}' :: '}' :: post) = pre ++ '}' :: '}' :: post := by
  have hno : NoOccurrence ['\\', '}', '}'] pre
      ('\\' :: '}' :: '}' :: post) := by
    induction pre with
    | nil => exact trivial
    | cons a pre ih =>
      refine ⟨?_, ih h.tail⟩
      rintro ⟨tail, heq⟩
      match pre, h, heq with
      | [], _, heq => simp at heq
      | [x], _, heq => simp at heq
      | x :: y :: rest, h, heq =>
        obtain ⟨-, rfl, rfl, -⟩ := heq
        exact h.tail.head
  rw [escapeCode, replaceFirst_of_noOccurrence hno]
  exact congrArg (pre ++ ·) (replaceFirst_append (cons_ne_nil _ _) post)

theorem escapeCode_of_noPair {text : Text} (h : NoPair '}' text) :
    escapeCode text = text := by
  have hno : NoOccurrence ['\\', '}', '}'] text [] := by
    induction text with
    | nil => exact trivial
    | cons a text ih =>
      refine ⟨?_, ih h.tail⟩
      rintro ⟨tail, heq⟩
      match text, h, heq with
      | x :: y :: rest, h, heq =>
        obtain ⟨-, rfl, rfl, -⟩ := heq
        exact h.tail.head
  have heq : replaceFirst ['\\', '}', '}'] ['}', '}'] (text ++ [])
      = text ++ replaceFirst ['\\', '}', '}'] ['}', '}'] [] :=
    replaceFirst_of_noOccurrence hno
  rw [append_nil] at heq
  rw [escapeCode, heq]
  exact append_nil text

theorem escapeTmplExpression_escaped {post : Text} (h : NoPair '}' pre) (hlast : ¬ ['}'] <:+ pre) :
    escapeTmplExpression (pre ++ '}' :: '}' :: post) = pre ++ '\\' :: '}' :: '}' :: post := by
  have hno : NoOccurrence ['}', '}'] pre ('}' :: '}' :: post) := by
    induction pre with
    | nil => exact trivial
    | cons a pre ih =>
      refine ⟨?_, ih h.tail fun hsuf =>
        hlast (hsuf.trans (suffix_cons a pre))⟩
      rintro ⟨tail, heq⟩
      match pre, h, hlast, heq with
      | [], _, hlast, heq =>
        obtain ⟨rfl, -⟩ := heq
        exact hlast (suffix_refl _)
      | x :: rest, h, _, heq =>
        obtain ⟨rfl, rfl, -⟩ := heq
        exact h.head
  rw [escapeTmplExpression, replaceFirst_of_noOccurrence hno]
  exact congrArg (pre ++ ·) (replaceFirst_append (cons_ne_nil _ _) post)

theorem escapeTmplExpression_shifted {post : Text} (h : NoPair '}' (pre ++ ['}'])) :
    escapeTmplExpression (pre ++ '}' :: '}' :: '}' :: post)
      = pre ++ '\\' :: '}' :: '}' :: '}' :: post := by
  refine escapeTmplExpression_escaped h.left ?_
  rintro ⟨pre', rfl⟩
  rw [append_assoc] at h
  exact h.right.head

/-! ## The loop -/

/-- What the joined text starts with while the buffer is filled. -/
def SearchingFor.lead : SearchingFor → Text
  | .openBracket => []
  | .closeBracket => ['{', '{']

/-- The buffer of a chunk that can still be joined back. -/
def BufferGood : SearchingFor → Bool → Text → Prop
  | _, true, buffer => buffer = []
  | .openBracket, false, buffer => buffer ≠ []
  | .closeBracket, false, buffer =>
    ∃ pre post, buffer = pre ++ '\\' :: '}' :: '}' :: post ∧
      NoPair '}' pre ∧ ¬ ['}'] <:+ pre

/-- The buffer of a code chunk whose first escaped bracket follows a `}`. -/
def BufferShifted (buffer : Text) : Prop :=
  ∃ pre post, buffer = pre ++ '}' :: '\\' :: '}' :: '}' :: post ∧
    NoPair '}' (pre ++ ['}'])

variable {buffer : Text}

theorem bufferShifted_append (h : BufferShifted buffer)
    (more : Text) : BufferShifted (buffer ++ more) := by
  obtain ⟨pre, post, rfl, hpair⟩ := h
  exact ⟨pre, post ++ more, by simp, hpair⟩

theorem escape_shifted (h : BufferShifted buffer) :
    (escapeTmplExpression (escapeCode buffer)).length = buffer.length ∧
      escapeTmplExpression (escapeCode buffer) ≠ buffer := by
  obtain ⟨pre, post, rfl, hpair⟩ := h
  have hcode : escapeCode (pre ++ '}' :: '\\' :: '}' :: '}' :: post)
      = pre ++ '}' :: '}' :: '}' :: post := by
    have := escapeCode_escaped hpair post
    rwa [append_assoc, append_assoc] at this
  rw [hcode, escapeTmplExpression_shifted hpair]
  refine ⟨by simp, ?_⟩
  intro heq
  have htail := append_cancel_left heq
  exact absurd (List.cons.inj htail).1 (by decide)

theorem escape_good {more : Text}
    (h : BufferGood .closeBracket fresh buffer) (hmore : NoPair '}' more) :
    escapeTmplExpression (escapeCode (buffer ++ more)) = buffer ++ more := by
  cases fresh with
  | true =>
    have hnil : buffer = [] := h
    rw [hnil, nil_append, escapeCode_of_noPair hmore]
    exact replaceFirst_pair_of_noPair hmore
  | false =>
    obtain ⟨pre, post, rfl, hpair, hlast⟩ := h
    rw [append_assoc]
    show escapeTmplExpression
      (escapeCode (pre ++ '\\' :: '}' :: '}' :: (post ++ more))) = _
    rw [escapeCode_escaped hpair, escapeTmplExpression_escaped hpair hlast]
    rfl

theorem joinExpression_cons (chunk : ExpressionChunk) (rest : List ExpressionChunk) :
    joinExpression (chunk :: rest) = joinChunk chunk ++ joinExpression rest := rfl

/-- What a chunk that was closed by a bracket ends with when joined. -/
def SearchingFor.trail : SearchingFor → Text
  | .openBracket => []
  | .closeBracket => ['}', '}']

theorem joinChunk_good {more : Text} (h : BufferGood sf fresh buffer)
    (hmore : NoPair sf.bracket more) :
    joinChunk (chunkOf sf (buffer ++ more) true) = sf.lead ++ buffer ++ more ++ sf.trail := by
  cases sf with
  | openBracket => simp [chunkOf, joinChunk, SearchingFor.lead, SearchingFor.trail]
  | closeBracket =>
    show ['{', '{'] ++ escapeTmplExpression (escapeCode (buffer ++ more)) ++ ['}', '}'] = _
    rw [escape_good h hmore]
    simp [SearchingFor.lead, SearchingFor.trail]

/-- Once the first escaped bracket of a code chunk follows a `}`, the text
    is not joined back, whatever comes after. -/
theorem join_splitLoop_shifted :
    ∀ (fuel : Nat) (buffer expr : Text), expr.length ≤ fuel → BufferShifted buffer →
      joinExpression (splitLoop fuel .closeBracket buffer expr) ≠ ['{', '{'] ++ buffer ++ expr := by
  intro fuel
  induction fuel with
  | zero =>
    intro buffer expr _ _ heq
    simp [splitLoop, joinExpression] at heq
  | succ fuel ih =>
    intro buffer expr hlen hshift
    rw [splitLoop]
    by_cases hnil : expr = []
    · rw [if_pos hnil]
      intro heq
      simp [joinExpression] at heq
    · rw [if_neg hnil]
      cases hexec : SearchingFor.closeBracket.exec expr with
      | none =>
        intro heq
        have hshift' := bufferShifted_append hshift expr
        refine (escape_shifted hshift').2 ?_
        simpa [joinExpression, joinChunk, chunkOf] using heq
      | some r =>
        obtain ⟨i, esc⟩ := r
        cases esc with
        | true =>
          dsimp only
          obtain ⟨pre, post, rfl, -, -, htake, hdrop⟩ := SearchingFor.exec_escaped hexec
          rw [htake, hdrop]
          have hstep := ih (buffer ++ (pre ++ ['\\', '}', '}'])) post
            (by
              simp only [length_append, length_cons] at hlen
              omega)
            (bufferShifted_append hshift _)
          intro heq
          refine hstep (heq.trans ?_)
          simp [SearchingFor.bracket]
        | false =>
          dsimp only
          obtain ⟨pre, post, rfl, -, htake, hdrop⟩ := SearchingFor.exec_bracket hexec
          rw [htake, hdrop, joinExpression_cons]
          intro heq
          -- the chunk keeps its length, so the two texts would agree
          -- on it
          have hshift' := bufferShifted_append hshift pre
          obtain ⟨hsame, hne⟩ := escape_shifted hshift'
          refine hne ?_
          have heq' : escapeTmplExpression (escapeCode (buffer ++ pre))
              ++ (['}', '}'] ++ joinExpression
                (splitLoop fuel .openBracket [] post))
              = (buffer ++ pre) ++ ('}' :: '}' :: post) := by
            simpa [joinChunk, chunkOf, SearchingFor.bracket, SearchingFor.other] using heq
          exact (append_inj heq' hsame).1

theorem rejoins_nil_iff (h : BufferGood sf fresh buffer) :
    [] = sf.lead ++ buffer ++ [] ↔ Rejoins sf fresh [] := by
  constructor
  · intro heq
    cases sf with
    | closeBracket => simp [SearchingFor.lead] at heq
    | openBracket =>
      cases fresh with
      | true => exact .finished
      | false => exact absurd (by simpa [SearchingFor.lead] using heq) h
  · intro hr
    generalize hexpr : ([] : Text) = expr at hr
    cases hr with
    | finished =>
      have hnil : buffer = [] := h
      rw [hnil]
      rfl
    | rest hne => exact absurd hexpr.symm hne
    | escaped hexec =>
      rw [← hexpr] at hexec
      cases hexec
    | bracket hexec =>
      rw [← hexpr] at hexec
      cases hexec

theorem bufferGood_escaped (h : BufferGood sf fresh buffer) (hpair : NoPair sf.bracket pre)
    (hlast : sf = .closeBracket → fresh = true → ¬ ['}'] <:+ pre) :
    BufferGood sf false (buffer ++ (pre ++ ['\\', sf.bracket, sf.bracket])) := by
  cases sf with
  | openBracket =>
    show _ ≠ _
    simp
  | closeBracket =>
    cases fresh with
    | true =>
      have hnil : buffer = [] := h
      rw [hnil]
      exact ⟨pre, [], rfl, hpair, hlast rfl rfl⟩
    | false =>
      obtain ⟨p, q, rfl, hp, hq⟩ := h
      exact ⟨p, q ++ (pre ++ ['\\', '}', '}']),
        by simp [SearchingFor.bracket], hp, hq⟩

/-- From a good buffer the loop joins back exactly along `Rejoins`. -/
theorem join_splitLoop_iff :
    ∀ (fuel : Nat) (sf : SearchingFor) (fresh : Bool) (buffer expr : Text),
      expr.length ≤ fuel → BufferGood sf fresh buffer →
      (joinExpression (splitLoop fuel sf buffer expr)
          = sf.lead ++ buffer ++ expr ↔ Rejoins sf fresh expr) := by
  intro fuel
  induction fuel with
  | zero =>
    intro sf fresh buffer expr hlen hgood
    have hnil : expr = [] := eq_nil_of_length_eq_zero (Nat.le_zero.mp hlen)
    rw [hnil]
    exact rejoins_nil_iff hgood
  | succ fuel ih =>
    intro sf fresh buffer expr hlen hgood
    rw [splitLoop]
    by_cases hnil : expr = []
    · rw [if_pos hnil, hnil]
      exact rejoins_nil_iff hgood
    rw [if_neg hnil]
    cases hexec : sf.exec expr with
    | none =>
      refine ⟨fun _ => .rest hnil hexec, fun _ => ?_⟩
      have hpair := SearchingFor.exec_none hexec
      cases sf with
      | openBracket => simp [joinExpression, joinChunk, chunkOf, SearchingFor.lead]
      | closeBracket =>
        have hesc := escape_good hgood hpair
        simpa [joinExpression, joinChunk, chunkOf, SearchingFor.lead] using hesc
    | some r =>
      obtain ⟨i, esc⟩ := r
      cases esc with
      | true =>
        dsimp only
        rw [rejoins_escaped_iff hexec]
        obtain ⟨pre, post, rfl, hpair, htakei, htake, hdrop⟩ := SearchingFor.exec_escaped hexec
        rw [htakei, htake, hdrop]
        have hlen' : post.length ≤ fuel := by
          simp only [length_append, length_cons] at hlen
          omega
        have hsplit : sf.lead ++ buffer
            ++ (pre ++ '\\' :: sf.bracket :: sf.bracket :: post)
            = sf.lead ++ (buffer ++ (pre ++ ['\\', sf.bracket, sf.bracket])) ++ post := by
          simp
        rw [hsplit]
        by_cases hlast :
            sf = .closeBracket → fresh = true → ¬ ['}'] <:+ pre
        · rw [ih sf false _ post hlen' (bufferGood_escaped hgood hpair hlast)]
          exact ⟨fun hr => ⟨hlast, hr⟩, fun hr => hr.2⟩
        · -- the first escaped bracket of the code chunk is shifted
          refine ⟨fun heq => ?_, fun hr => absurd hr.1 hlast⟩
          simp only [Classical.not_imp, Classical.not_not] at hlast
          obtain ⟨rfl, rfl, pre', rfl⟩ := hlast
          have hbuf : buffer = [] := hgood
          exact absurd heq (join_splitLoop_shifted fuel _ post hlen'
            ⟨pre', [], by simp [hbuf, SearchingFor.bracket], hpair⟩)
      | false =>
        dsimp only
        rw [rejoins_bracket_iff hexec]
        obtain ⟨pre, post, rfl, hpair, htake, hdrop⟩ := SearchingFor.exec_bracket hexec
        have hlen' : post.length ≤ fuel := by
          simp only [length_append, length_cons] at hlen
          omega
        rw [htake, hdrop, joinExpression_cons, joinChunk_good hgood hpair,
          ← ih sf.other true [] post hlen' (by cases sf <;> rfl)]
        -- the bracket closes one chunk and leads the next
        cases sf <;>
          simp [SearchingFor.lead, SearchingFor.trail, SearchingFor.other, SearchingFor.bracket]

/-- **LOSSLESS SPLITTING**: a string is joined back from its chunks exactly
    when reading it never runs into one of the two losses. -/
theorem join_split_iff (expression : Text) :
    joinExpression (splitExpression expression) = expression
      ↔ Rejoins .openBracket true expression :=
  join_splitLoop_iff expression.length .openBracket true [] expression (Nat.le_refl _) rfl

/-- The three losses: an opening bracket at the end, an escaped bracket at
    the end, and an escaped closing bracket right after a `}`. -/
theorem join_split_lossy :
    joinExpression (splitExpression "a \x7b\x7b".toList)
      ≠ "a \x7b\x7b".toList ∧ joinExpression (splitExpression "a \\\x7b\x7b".toList)
      ≠ "a \\\x7b\x7b".toList ∧ joinExpression
        (splitExpression "\x7b\x7b \x7d\\\x7d\x7d \x7d\x7d".toList)
      ≠ "\x7b\x7b \x7d\\\x7d\x7d \x7d\x7d".toList := by
  decide

end N8nExpressionParser
