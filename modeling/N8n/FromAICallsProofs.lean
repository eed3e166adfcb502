import Mathlib.Data.List.DropRight
import N8n.JsonTextProofs

/-! # `$fromAI` calls — which argument texts come back as they were written

    `extractFromAICalls` looks for the start of a call with a regular
    expression, walks to the bracket that closes it and splits what stands
    between at the commas.  Both walks know quotes and backslashes, so
    brackets, commas, quotes and backslashes in a quoted text move neither.

    Two things do.  The search for the next call goes on after the opening
    bracket of the last one, inside its arguments, so a text that holds a
    call start is a call again.  And the split has taken the backslashes away
    before the quotes are stripped, where they are taken away once more.
    `parsedBack_iff` says that nothing else goes wrong. -/

namespace N8nFromAICalls

open N8nJsonText List

/-! ## The source's functions -/

/-- `\s` and what `trim` removes. -/
def isSpace (u : CodeUnit) : Bool :=
  (9 ≤ u && u ≤ 13) || u = 32 || u = 160 || u = 0x1680
    || (0x2000 ≤ u && u ≤ 0x200A) || u = 0x2028 || u = 0x2029 || u = 0x202F
    || u = 0x205F || u = 0x3000 || u = 0xFEFF

/-- `['"', "'", '`'].includes(char)` -/
def isQuote (u : CodeUnit) : Bool := u = 34 || u = 39 || u = 96

/-- A capital letter in lower case.  Beyond ASCII neither `toLowerCase` nor
    the `i` flag reaches a letter of the words compared here. -/
def lowerUnit (u : CodeUnit) : CodeUnit :=
  if 65 ≤ u ∧ u ≤ 90 then u + 32 else u

def toLowerCase (s : JsString) : JsString := s.map lowerUnit

def trim (s : JsString) : JsString := (s.dropWhile isSpace).rdropWhile isSpace

structure ParseError where
  message : JsString

variable {N : Type}

structure FromAIArgument (N : Type) where
  key : JsString
  description : Option JsString
  type : JsString
  defaultValue : Option (Json N)

def isFromAIArgumentType (value : JsString) : Bool :=
  [ofString "string", ofString "number", ofString "boolean",
    ofString "json"].contains (toLowerCase value)

section

-- `Number(value)`, where it is a number, and `jsonParse(value)`, where it
-- does not throw
variable (toNumber : JsString → Option N) (jsonParse : JsString → Option (Json N))

def parseDefaultValue (value : Option JsString) (type : JsString) : Option (Json N) :=
  match value with
  | none => none
  | some value =>
    if type = ofString "string" then some (.string value)
    else if type = ofString "boolean" ∧ (toLowerCase value = ofString "true"
        ∨ toLowerCase value = ofString "false") then
      some (.bool (toLowerCase value = ofString "true"))
    else
      match if type = ofString "number" then toNumber value else none with
      | some n => some (.number n)
      | none => some ((jsonParse value).getD (.string value))

/-- `quoteChar` behind a quote, open or not. -/
def nextQuote (quoteChar : Option CodeUnit) (char : CodeUnit) : Option CodeUnit :=
  match quoteChar with
  | none => some char
  | some quote => if char = quote then none else some quote

/-- The loop of `parseArguments`: `quoteChar` is set inside quotes. -/
def splitArgs (args : List JsString) (currentArg : JsString)
    (quoteChar : Option CodeUnit) (escapeNext : Bool) :
    JsString → List JsString
  | [] => if currentArg = [] then args else args ++ [trim currentArg]
  | char :: rest =>
    if escapeNext then
      splitArgs args (currentArg ++ [char]) quoteChar false rest
    else if char = 92 then splitArgs args currentArg quoteChar true rest
    else if isQuote char then
      splitArgs args (currentArg ++ [char]) (nextQuote quoteChar char) false rest
    else if char = 44 ∧ quoteChar = none then
      splitArgs (args ++ [trim currentArg]) [] quoteChar false rest
    else splitArgs args (currentArg ++ [char]) quoteChar false rest

/-- ``replace(/\\q/g, q)``: the backslash before each `q` goes. -/
def replaceEscaped (q : CodeUnit) : JsString → JsString
  | 92 :: u :: rest =>
    if u = q then q :: replaceEscaped q rest
    else 92 :: replaceEscaped q (u :: rest)
  | u :: rest => u :: replaceEscaped q rest
  | [] => []

/-- The replacements of `cleanArgs`. -/
def unescape (s : JsString) : JsString :=
  replaceEscaped 92 (replaceEscaped 34 (replaceEscaped 96 (replaceEscaped 39 s)))

/-- `trimmed.startsWith(q) && trimmed.endsWith(q)` -/
def enclosedBy (q : CodeUnit) (s : JsString) : Bool := s.head? = some q && s.getLast? = some q

def cleanArg (arg : JsString) : JsString :=
  let trimmed := trim arg
  if enclosedBy 39 trimmed || enclosedBy 96 trimmed || enclosedBy 34 trimmed
  then unescape (trimmed.drop 1).dropLast else trimmed

def parseArguments (argsString : JsString) : Except ParseError (FromAIArgument N) :=
  let cleanArgs := (splitArgs [] [] none false argsString).map cleanArg
  let type := cleanArgs[2]?.getD (ofString "string")
  if isFromAIArgumentType type then
    .ok
      { key := cleanArgs[0]?.getD []
        description := cleanArgs[1]?
        type
        defaultValue :=
          parseDefaultValue toNumber jsonParse cleanArgs[3]? type }
  else .error ⟨ofString "Invalid type: " ++ type⟩

/-- The walk to the bracket that closes a call: what stands before it, or
    nothing if the text ends first. -/
def scanCall (parenthesesCount : Nat) (quoteChar : Option CodeUnit)
    (argsString : JsString) : JsString → Option JsString
  | [] => none
  | char :: rest =>
    match quoteChar with
    | some quote =>
      match rest with
      | next :: rest =>
        if char = 92 then
          scanCall parenthesesCount quoteChar (argsString ++ [char, next]) rest
        else
          scanCall parenthesesCount (if char = quote then none else some quote)
            (argsString ++ [char]) (next :: rest)
      -- the text ends inside the brackets
      | [] => none
    | none =>
      if isQuote char then
        scanCall parenthesesCount (some char) (argsString ++ [char]) rest
      else if char = 40 then
        scanCall (parenthesesCount + 1) none (argsString ++ [char]) rest
      else if char = 41 then
        if parenthesesCount = 1 then some argsString
        else scanCall (parenthesesCount - 1) none (argsString ++ [char]) rest
      else scanCall parenthesesCount none (argsString ++ [char]) rest

/-- `text`, which is in lower case, at the start of a string in any case:
    what follows it. -/
def stripWord (text s : JsString) : Option JsString :=
  if toLowerCase (s.take text.length) = text then some (s.drop text.length)
  else none

/-- `/\$fromAI\s*\(\s*/gi` at the start of a string: what follows the
    match. -/
def matchStart (s : JsString) : Option JsString :=
  match (stripWord (ofString "$fromai") s).map (List.dropWhile isSpace) with
  | some (40 :: rest) => some (rest.dropWhile isSpace)
  | _ => none

/-- `pattern.exec(str)`: what follows the first match. -/
def findMatch : JsString → Option JsString
  | [] => none
  | u :: rest => (matchStart (u :: rest)).or (findMatch rest)

theorem length_of_matchStart {s rest : JsString}
    (h : matchStart s = some rest) : rest.length < s.length := by
  unfold matchStart at h
  split at h
  · next rest' hrest =>
      cases h
      obtain ⟨after, hafter, hdrop⟩ := Option.map_eq_some_iff.mp hrest
      unfold stripWord at hafter
      split at hafter
      · cases hafter
        have hspaces := length_dropWhile_le isSpace (s.drop (ofString "$fromai").length)
        have hinner := length_dropWhile_le isSpace rest'
        rw [hdrop, length_drop] at hspaces
        simp only [length_cons] at hspaces
        omega
      · cases hafter
  · cases h

theorem length_of_findMatch {s rest : JsString} (h : findMatch s = some rest) :
    rest.length < s.length := by
  induction s with
  | nil => cases h
  | cons u s ih =>
    rw [findMatch, Option.or_eq_some_iff] at h
    rcases h with hhere | ⟨-, hlater⟩
    · exact length_of_matchStart hhere
    · exact Nat.lt_succ_of_lt (ih hlater)

/-- One turn of the loop of `extractFromAICalls`, from the end of a match. -/
def parseCall (rest : JsString) : Except ParseError (FromAIArgument N) :=
  match scanCall 1 none [] rest with
  | some argsString =>
    match parseArguments toNumber jsonParse argsString with
    | .ok parsedArgs => .ok parsedArgs
    | .error error =>
      .error ⟨ofString "Failed to parse $fromAI arguments: " ++ argsString
        ++ ofString ": Error: " ++ error.message⟩
  | none =>
    .error ⟨ofString "Unbalanced parentheses while parsing $fromAI call: " ++ rest⟩

/-- The search goes on behind the match, not behind the call. -/
def extractFromAICalls (str : JsString) : Except ParseError (List (FromAIArgument N)) :=
  match _h : findMatch str with
  | none => .ok []
  | some rest => do
      let parsedArgs ← parseCall toNumber jsonParse rest
      let args ← extractFromAICalls rest
      .ok (parsedArgs :: args)
termination_by str.length
decreasing_by exact length_of_findMatch _h

end

/-! ## Where a call can start -/

attribute [local simp] stripWord findMatch scanCall splitArgs replaceEscaped

theorem stripWord_cons_cons (p u : CodeUnit) (text s : JsString) :
    stripWord (p :: text) (u :: s) = if lowerUnit u = p then stripWord text s else none := by
  unfold stripWord
  simp only [length_cons, take_succ_cons, drop_succ_cons, toLowerCase, map_cons, List.cons.injEq]
  split_ifs <;> first | rfl | grind

variable {c : CodeUnit}

theorem stripWord_append {text : JsString} (hc : lowerUnit c ∉ text) (a l : JsString) :
    stripWord text (a ++ c :: l) = (stripWord text a).map (· ++ c :: l) := by
  induction text generalizing a with
  | nil => rfl
  | cons p text ih =>
    rw [mem_cons, not_or] at hc
    cases a with
    | nil =>
      rw [nil_append, stripWord_cons_cons, if_neg hc.1]
      rfl
    | cons u a =>
      rw [cons_append, stripWord_cons_cons, stripWord_cons_cons]
      split_ifs
      · exact ih hc.2 a
      · rfl

/-- A unit that can stand in a call start only as its first. -/
def IsStop (c : CodeUnit) : Prop := isSpace c = false ∧ c ≠ 40 ∧ lowerUnit c ∉ ofString "fromai"

variable {q : CodeUnit}

theorem IsStop.of_isQuote (h : isQuote q = true) : IsStop q := by
  simp only [isQuote, Bool.or_eq_true, decide_eq_true_eq] at h
  rcases h with (rfl | rfl) | rfl <;>
    exact ⟨by decide, by decide, by decide⟩

theorem isStop_backslash : IsStop 92 := ⟨by decide, by decide, by decide⟩

theorem isStop_dollar : IsStop 36 := ⟨by decide, by decide, by decide⟩

variable {u : CodeUnit}

theorem lowerUnit_eq_dollar (h : lowerUnit u = 36) : u = 36 := by
  unfold lowerUnit at h
  split at h
  · next hcapital =>
      have hval := congrArg Fin.val h
      have hlow : 65 ≤ u.val := hcapital.1
      omega
  · exact h

theorem matchStart_cons_of_ne (h : u ≠ 36) (s : JsString) : matchStart (u :: s) = none := by
  have hname : ofString "$fromai" = 36 :: ofString "fromai" := by decide
  rw [matchStart, hname, stripWord_cons_cons, if_neg fun hu => h (lowerUnit_eq_dollar hu)]
  rfl

theorem findMatch_cons_of_ne (h : u ≠ 36) (s : JsString) : findMatch (u :: s) = findMatch s := by
  rw [findMatch, matchStart_cons_of_ne h, Option.none_or]

theorem dropWhile_append_stop (hc : isSpace c = false) (a l : JsString) :
    (a ++ c :: l).dropWhile isSpace = a.dropWhile isSpace ++ c :: l := by
  rw [dropWhile_append]
  split
  · next hempty =>
      rw [isEmpty_iff.mp hempty, nil_append, dropWhile_cons_of_neg (by rw [hc]; decide)]
  · rfl

variable {a : JsString}

theorem matchStart_append (hc : IsStop c) (ha : a ≠ []) (l : JsString) :
    matchStart (a ++ c :: l) = (matchStart a).map (· ++ c :: l) := by
  obtain ⟨u, a, rfl⟩ := exists_cons_of_ne_nil ha
  have hname : ofString "$fromai" = 36 :: ofString "fromai" := by decide
  unfold matchStart
  rw [hname, cons_append, stripWord_cons_cons, stripWord_cons_cons]
  split_ifs
  · rw [stripWord_append hc.2.2]
    cases stripWord (ofString "fromai") a with
    | none => rfl
    | some after =>
      simp only [Option.map_some]
      rw [dropWhile_append_stop hc.1]
      cases after.dropWhile isSpace with
      | nil =>
        show (match some (c :: l) with
          | some (40 :: rest) => some (rest.dropWhile isSpace)
          | _ => none) = none
        split
        · next heq => exact absurd (List.cons.inj (Option.some.inj heq)).1 hc.2.1
        · rfl
      | cons v after =>
        by_cases hv : v = 40
        · subst hv
          exact congrArg some (dropWhile_append_stop hc.1 after l)
        · grind
  · rfl

theorem findMatch_cons (u : CodeUnit) (s : JsString) :
    findMatch (u :: s) = (matchStart (u :: s)).or (findMatch s) := rfl

/-- **STOPS**: a call starts before a stop or from it on, never across. -/
theorem findMatch_append (hc : IsStop c) (a l : JsString) :
    findMatch (a ++ c :: l) = ((findMatch a).map (· ++ c :: l)).or (findMatch (c :: l)) := by
  induction a with
  | nil => rfl
  | cons u a ih =>
    rw [cons_append, findMatch_cons, ← cons_append,
      matchStart_append hc (cons_ne_nil u a), ih, findMatch_cons u]
    cases matchStart (u :: a) <;> rfl

/-- No call starts in a text. -/
def NoCall (s : JsString) : Prop := findMatch s = none

instance (s : JsString) : Decidable (NoCall s) := inferInstanceAs (Decidable (findMatch s = none))

variable {s : JsString}

theorem noCall_cons (h : u ≠ 36) : NoCall (u :: s) ↔ NoCall s := by
  rw [NoCall, findMatch_cons_of_ne h, NoCall]

theorem noCall_append (hc : IsStop c) {l : JsString} :
    NoCall (a ++ c :: l) ↔ NoCall a ∧ NoCall (c :: l) := by
  rw [NoCall, findMatch_append hc, Option.or_eq_none_iff, Option.map_eq_none_iff, NoCall, NoCall]

theorem noCall_append_of_forall (ha : ∀ u ∈ a, u ≠ 36)
    {l : JsString} : NoCall (a ++ l) ↔ NoCall l := by
  induction a with
  | nil => rfl
  | cons u a ih =>
    rw [forall_mem_cons] at ha
    rw [cons_append, noCall_cons ha.1, ih ha.2]

theorem noCall_of_forall (ha : ∀ u ∈ a, u ≠ 36) : NoCall a := by
  have h := (noCall_append_of_forall ha (l := [])).mpr rfl
  rwa [append_nil] at h

/-! ## How a call is written -/

/-- A quoted text: the spaces around it, its quotes, and the units that have
    a backslash before them. -/
structure Spelling where
  before : JsString
  quote : CodeUnit
  escaped : CodeUnit → Bool
  after : JsString
  before_isSpace : ∀ u ∈ before, isSpace u = true
  isQuote_quote : isQuote quote = true
  escaped_quote : escaped quote = true
  escaped_backslash : escaped 92 = true
  isQuote_of_escaped : ∀ u, escaped u = true → isQuote u = true ∨ u = 92
  after_isSpace : ∀ u ∈ after, isSpace u = true

namespace Spelling

variable (w : Spelling)

def escape (s : JsString) : JsString := s.flatMap fun u => if w.escaped u then [92, u] else [u]

def write (s : JsString) : JsString := w.before ++ w.quote :: (w.escape s ++ w.quote :: w.after)

theorem escape_nil : w.escape [] = [] := rfl

theorem escape_cons_of_escaped {u : CodeUnit} (h : w.escaped u = true)
    (s : JsString) : w.escape (u :: s) = 92 :: u :: w.escape s := by
  rw [escape, flatMap_cons, if_pos h]
  rfl

theorem escape_cons_of_not {u : CodeUnit} (h : w.escaped u = false)
    (s : JsString) : w.escape (u :: s) = u :: w.escape s := by
  rw [escape, flatMap_cons, if_neg (by rw [h]; decide)]
  rfl

theorem write_append (s l : JsString) :
    w.write s ++ l = w.before ++ w.quote :: (w.escape s ++ w.quote :: (w.after ++ l)) := by
  simp [write]

end Spelling

theorem IsStop.of_escaped {w : Spelling} (h : w.escaped u = true) : IsStop u := by
  rcases w.isQuote_of_escaped u h with hquote | rfl
  · exact .of_isQuote hquote
  · exact isStop_backslash

theorem ne_of_isSpace (h : isSpace u = true) (hc : isSpace c = false) : u ≠ c := by
  rintro rfl
  rw [h] at hc
  cases hc

theorem ne_dollar_of_escaped {w : Spelling} (h : w.escaped u = true) : u ≠ 36 := by
  rintro rfl
  rcases w.isQuote_of_escaped 36 h with hquote | heq
  · exact absurd hquote (by decide)
  · exact absurd heq (by decide)

theorem noCall_escape (w : Spelling) (a s : JsString) (hc : IsStop c) (l : JsString) :
    NoCall (a ++ (w.escape s ++ c :: l)) ↔ NoCall (a ++ s) ∧ NoCall (c :: l) := by
  induction s generalizing a with
  | nil => rw [w.escape_nil, nil_append, noCall_append hc, append_nil]
  | cons u s ih =>
    by_cases hu : w.escaped u = true
    · have hdollar : u ≠ 36 := ne_dollar_of_escaped hu
      rw [w.escape_cons_of_escaped hu, cons_append, cons_append, noCall_append isStop_backslash,
        noCall_cons (by decide), noCall_cons hdollar, noCall_append (.of_escaped hu),
        noCall_cons hdollar, ← nil_append (w.escape s ++ c :: l), ih [], nil_append, and_assoc]
    · rw [w.escape_cons_of_not (Bool.eq_false_of_not_eq_true hu),
        append_cons a u s, ← ih (a ++ [u]), cons_append, ← append_cons]

theorem noCall_write (w : Spelling) (s l : JsString) :
    NoCall (w.write s ++ l) ↔ NoCall s ∧ NoCall l := by
  have hquote := IsStop.of_isQuote w.isQuote_quote
  have hdollar : w.quote ≠ 36 := ne_dollar_of_escaped w.escaped_quote
  rw [w.write_append, noCall_append_of_forall fun u hu =>
      ne_of_isSpace (w.before_isSpace u hu) (by decide),
    noCall_cons hdollar, ← nil_append (w.escape s ++ _),
    noCall_escape w [] s hquote, nil_append, noCall_cons hdollar,
    noCall_append_of_forall fun u hu =>
      ne_of_isSpace (w.after_isSpace u hu) (by decide)]

/-! ## The walk to the closing bracket -/

theorem scanCall_quoted {quote : CodeUnit} (hu : u ≠ 92) (n : Nat) (acc l : JsString) :
    scanCall n (some quote) acc (u :: l)
      = scanCall n (if u = quote then none else some quote) (acc ++ [u]) l := by
  cases l with
  | nil => rw [scanCall, scanCall]
  | cons v l => rw [scanCall, if_neg hu]

theorem scanCall_quoted_backslash (u quote : CodeUnit) (n : Nat) (acc l : JsString) :
    scanCall n (some quote) acc (92 :: u :: l) = scanCall n (some quote) (acc ++ [92, u]) l := by
  rw [scanCall, if_pos rfl]

theorem scanCall_isQuote (h : isQuote q = true) (n : Nat) (acc l : JsString) :
    scanCall n none acc (q :: l) = scanCall n (some q) (acc ++ [q]) l := by
  rw [scanCall, if_pos h]

theorem scanCall_plain (hquote : isQuote u = false)
    (hopen : u ≠ 40) (hclose : u ≠ 41) (n : Nat) (acc l : JsString) :
    scanCall n none acc (u :: l) = scanCall n none (acc ++ [u]) l := by
  rw [scanCall, if_neg (by rw [hquote]; decide), if_neg hopen, if_neg hclose]

theorem not_isQuote_of_isSpace (h : isSpace u = true) : isQuote u = false :=
  Bool.eq_false_of_not_eq_true fun hquote =>
    ne_of_isSpace h (IsStop.of_isQuote hquote).1 rfl

theorem scanCall_spaces (ha : ∀ u ∈ a, isSpace u = true) (n : Nat) (acc l : JsString) :
    scanCall n none acc (a ++ l) = scanCall n none (acc ++ a) l := by
  induction a generalizing acc with
  | nil => rw [append_nil, nil_append]
  | cons u a ih =>
    rw [forall_mem_cons] at ha
    rw [cons_append, scanCall_plain (not_isQuote_of_isSpace ha.1)
        (ne_of_isSpace ha.1 (by decide)) (ne_of_isSpace ha.1 (by decide)), ih ha.2, append_assoc]
    rfl

theorem scanCall_escape (w : Spelling) (n : Nat) (acc s l : JsString) :
    scanCall n (some w.quote) acc (w.escape s ++ w.quote :: l)
      = scanCall n none (acc ++ (w.escape s ++ [w.quote])) l := by
  have hquote : w.quote ≠ 92 := by
    intro h
    exact absurd (h ▸ w.isQuote_quote) (by decide)
  induction s generalizing acc with
  | nil =>
    rw [w.escape_nil, nil_append, nil_append, scanCall_quoted hquote, if_pos rfl]
  | cons u s ih =>
    by_cases hu : w.escaped u = true
    · rw [w.escape_cons_of_escaped hu, cons_append, cons_append,
        scanCall_quoted_backslash, ih, append_assoc]
      rfl
    · have hne : ∀ c, w.escaped c = true → u ≠ c := by
        rintro c hc rfl
        exact hu hc
      rw [w.escape_cons_of_not (Bool.eq_false_of_not_eq_true hu), cons_append,
        scanCall_quoted (hne 92 w.escaped_backslash),
        if_neg (hne w.quote w.escaped_quote), ih, append_assoc]
      rfl

theorem scanCall_write (w : Spelling) (n : Nat) (acc s l : JsString) :
    scanCall n none acc (w.write s ++ l) = scanCall n none (acc ++ w.write s) l := by
  rw [w.write_append, scanCall_spaces w.before_isSpace, scanCall_isQuote w.isQuote_quote,
    scanCall_escape, scanCall_spaces w.after_isSpace, Spelling.write]
  simp

/-! ## The split at the commas -/

theorem splitArgs_plain (hbackslash : u ≠ 92) (hquote : isQuote u = false)
    {quoteChar : Option CodeUnit} (hcomma : u ≠ 44 ∨ quoteChar ≠ none)
    (args : List JsString) (cur l : JsString) :
    splitArgs args cur quoteChar false (u :: l)
      = splitArgs args (cur ++ [u]) quoteChar false l := by
  rw [splitArgs, if_neg (by decide), if_neg hbackslash,
    if_neg (by rw [hquote]; decide), if_neg (by tauto)]

theorem splitArgs_isQuote (h : isQuote q = true)
    (quoteChar : Option CodeUnit) (args : List JsString) (cur l : JsString) :
    splitArgs args cur quoteChar false (q :: l)
      = splitArgs args (cur ++ [q]) (nextQuote quoteChar q) false l := by
  have hbackslash : q ≠ 92 := by
    rintro rfl
    exact absurd h (by decide)
  rw [splitArgs, if_neg (by decide), if_neg hbackslash, if_pos h]

theorem splitArgs_backslash (u : CodeUnit) (quoteChar : Option CodeUnit)
    (args : List JsString) (cur l : JsString) :
    splitArgs args cur quoteChar false (92 :: u :: l)
      = splitArgs args (cur ++ [u]) quoteChar false l := by
  rw [splitArgs, if_neg (by decide), if_pos rfl, splitArgs, if_pos rfl]

theorem splitArgs_comma (args : List JsString) (cur l : JsString) :
    splitArgs args cur none false (44 :: l) = splitArgs (args ++ [trim cur]) [] none false l := by
  rw [splitArgs, if_neg (by decide), if_neg (by decide), if_neg (by decide), if_pos ⟨rfl, rfl⟩]

theorem splitArgs_spaces (ha : ∀ u ∈ a, isSpace u = true)
    (args : List JsString) (cur l : JsString) :
    splitArgs args cur none false (a ++ l) = splitArgs args (cur ++ a) none false l := by
  induction a generalizing cur with
  | nil => rw [append_nil, nil_append]
  | cons u a ih =>
    rw [forall_mem_cons] at ha
    rw [cons_append, splitArgs_plain (ne_of_isSpace ha.1 (by decide))
        (not_isQuote_of_isSpace ha.1) (.inl (ne_of_isSpace ha.1 (by decide))), ih ha.2,
      append_assoc]
    rfl

theorem splitArgs_escape (w : Spelling) (args : List JsString) (cur s l : JsString) :
    splitArgs args cur (some w.quote) false (w.escape s ++ w.quote :: l)
      = splitArgs args (cur ++ (s ++ [w.quote])) none false l := by
  induction s generalizing cur with
  | nil =>
    rw [w.escape_nil, nil_append, nil_append,
      splitArgs_isQuote w.isQuote_quote, nextQuote, if_pos rfl]
  | cons u s ih =>
    by_cases hu : w.escaped u = true
    · rw [w.escape_cons_of_escaped hu, cons_append, cons_append,
        splitArgs_backslash, ih, append_assoc]
      rfl
    · have hne : ∀ c, w.escaped c = true → u ≠ c := by
        rintro c hc rfl
        exact hu hc
      have hstep : splitArgs args cur (some w.quote) false (u :: (w.escape s ++ w.quote :: l))
          = splitArgs args (cur ++ [u]) (some w.quote) false (w.escape s ++ w.quote :: l) := by
        cases hquote : isQuote u with
        | true =>
          rw [splitArgs_isQuote hquote, nextQuote, if_neg (hne w.quote w.escaped_quote)]
        | false =>
          exact splitArgs_plain (hne 92 w.escaped_backslash) hquote
            (.inr (Option.some_ne_none _)) args cur _
      rw [w.escape_cons_of_not (Bool.eq_false_of_not_eq_true hu),
        cons_append, hstep, ih, append_assoc]
      rfl

/-- What the split collects of a quoted text. -/
def Spelling.collected (w : Spelling) (s : JsString) : JsString :=
  w.before ++ w.quote :: (s ++ w.quote :: w.after)

theorem splitArgs_write (w : Spelling) (args : List JsString) (s l : JsString) :
    splitArgs args [] none false (w.write s ++ l)
      = splitArgs args (w.collected s) none false l := by
  rw [w.write_append, splitArgs_spaces w.before_isSpace, splitArgs_isQuote w.isQuote_quote,
    nextQuote, splitArgs_escape, splitArgs_spaces w.after_isSpace, Spelling.collected]
  simp

/-! ## One argument -/

theorem rdropWhile_append_spaces {b : JsString} (hb : ∀ u ∈ b, isSpace u = true)
    (a : JsString) (hq : isSpace q = false) :
    (a ++ q :: b).rdropWhile isSpace = a ++ [q] := by
  rw [List.rdropWhile, reverse_append, reverse_cons, append_assoc,
    dropWhile_append_of_pos fun u hu => hb u (mem_reverse.mp hu)]
  rw [cons_append, dropWhile_cons_of_neg (by rw [hq]; decide)]
  simp

theorem trim_collected (w : Spelling) (s : JsString) :
    trim (w.collected s) = w.quote :: (s ++ [w.quote]) := by
  have hquote : isSpace w.quote = false := (IsStop.of_isQuote w.isQuote_quote).1
  rw [trim, Spelling.collected, dropWhile_append_of_pos w.before_isSpace,
    dropWhile_cons_of_neg (by rw [hquote]; decide), ← cons_append,
    rdropWhile_append_spaces w.after_isSpace _ hquote]
  rfl

theorem trim_quoted (h : isQuote q = true) (s : JsString) :
    trim (q :: (s ++ [q])) = q :: (s ++ [q]) := by
  have hquote : isSpace q = false := (IsStop.of_isQuote h).1
  rw [trim, dropWhile_cons_of_neg (by rw [hquote]; decide), ← cons_append,
    rdropWhile_append_spaces (fun u hu => by cases hu) _ hquote]

theorem cleanArg_quoted (h : isQuote q = true)
    (s : JsString) : cleanArg (q :: (s ++ [q])) = unescape s := by
  have henclosed : enclosedBy q (q :: (s ++ [q])) = true := by
    rw [enclosedBy, head?_cons, ← cons_append, getLast?_concat]
    simp
  unfold cleanArg
  simp only [trim_quoted h]
  simp only [isQuote, Bool.or_eq_true, decide_eq_true_eq] at h
  rw [if_pos (by rcases h with (rfl | rfl) | rfl <;> simp [henclosed]),
    drop_one, tail_cons, dropLast_concat]

/-! ## Backslashes taken away twice -/

/-- No backslash stands before a quote or a backslash. -/
def Unpaired (s : JsString) : Prop := ∀ q, isQuote q = true ∨ q = 92 → ¬ [92, q] <:+: s

theorem replaceEscaped_eq_self (h : ¬ [92, q] <:+: s) : replaceEscaped q s = s := by
  fun_induction replaceEscaped q s with
  | case1 rest ih => exact absurd ⟨[], rest, rfl⟩ h
  | case2 u rest hu ih =>
    rw [ih fun hlater => h (hlater.trans (suffix_cons 92 _).isInfix)]
  | case3 u rest hpair ih =>
    rw [ih fun hlater => h (hlater.trans (suffix_cons u _).isInfix)]
  | case4 => rfl

theorem length_replaceEscaped_le (q : CodeUnit) (s : JsString) :
    (replaceEscaped q s).length ≤ s.length := by
  fun_induction replaceEscaped q s <;>
    simp only [length_cons, length_nil] at * <;> omega

theorem length_replaceEscaped_lt (h : [92, q] <:+: s) : (replaceEscaped q s).length < s.length := by
  fun_induction replaceEscaped q s with
  | case1 rest ih =>
    have hle := length_replaceEscaped_le q rest
    simp only [length_cons]
    omega
  | case2 u rest hu ih =>
    rcases infix_cons_iff.mp h with hhere | hlater
    · obtain ⟨l, hl⟩ := hhere
      simp only [cons_append, List.cons.injEq] at hl
      exact absurd hl.2.1.symm hu
    · exact Nat.succ_lt_succ (ih hlater)
  | case3 u rest hpair ih =>
    rcases infix_cons_iff.mp h with hhere | hlater
    · obtain ⟨l, hl⟩ := hhere
      simp only [cons_append, List.cons.injEq] at hl
      exact absurd hl.2.symm (hpair _ _ hl.1.symm)
    · exact Nat.succ_lt_succ (ih hlater)
  | case4 => exact absurd (infix_nil.mp h) (cons_ne_nil _ _)

/-- **TWICE**: the second unescaping keeps a text exactly when no backslash
    in it stands before a quote or a backslash. -/
theorem unescape_eq_self_iff (s : JsString) : unescape s = s ↔ Unpaired s := by
  have hle := length_replaceEscaped_le
  constructor
  · intro h
    have hlen := congrArg List.length h
    rw [unescape] at hlen
    -- the first replacement that finds a pair makes the text shorter, and
    -- the ones after it do not make it longer
    have hsingle : ¬ [92, 39] <:+: s := by
      intro hpair
      have hlt := length_replaceEscaped_lt hpair
      have h96 := hle 96 (replaceEscaped 39 s)
      have h34 := hle 34 (replaceEscaped 96 (replaceEscaped 39 s))
      have h92 := hle 92 (replaceEscaped 34 (replaceEscaped 96 (replaceEscaped 39 s)))
      omega
    rw [replaceEscaped_eq_self hsingle] at hlen
    have hback : ¬ [92, 96] <:+: s := by
      intro hpair
      have hlt := length_replaceEscaped_lt hpair
      have h34 := hle 34 (replaceEscaped 96 s)
      have h92 := hle 92 (replaceEscaped 34 (replaceEscaped 96 s))
      omega
    rw [replaceEscaped_eq_self hback] at hlen
    have hdouble : ¬ [92, 34] <:+: s := by
      intro hpair
      have hlt := length_replaceEscaped_lt hpair
      have h92 := hle 92 (replaceEscaped 34 s)
      omega
    rw [replaceEscaped_eq_self hdouble] at hlen
    have hslash : ¬ [92, 92] <:+: s := fun hpair =>
      Nat.ne_of_lt (length_replaceEscaped_lt hpair) hlen
    rintro q (hq | rfl)
    · simp only [isQuote, Bool.or_eq_true, decide_eq_true_eq] at hq
      rcases hq with (rfl | rfl) | rfl
      · exact hdouble
      · exact hsingle
      · exact hback
    · exact hslash
  · intro h
    rw [unescape, replaceEscaped_eq_self (h 39 (.inl rfl)),
      replaceEscaped_eq_self (h 96 (.inl rfl)), replaceEscaped_eq_self (h 34 (.inl rfl)),
      replaceEscaped_eq_self (h 92 (.inr rfl))]

instance (s : JsString) : Decidable (Unpaired s) := decidable_of_iff _ (unescape_eq_self_iff s)

theorem unescape_of_forall (h : ∀ u ∈ s, u ≠ 92) : unescape s = s :=
  (unescape_eq_self_iff s).mpr fun _ _ hpair =>
    h 92 (hpair.subset (mem_cons_self ..)) rfl

/-! ## The whole call -/

/-- `/^[a-zA-Z0-9_-]{1,64}$/` -/
def isKeyUnit (u : CodeUnit) : Bool :=
  (97 ≤ u && u ≤ 122) || (65 ≤ u && u ≤ 90) || (48 ≤ u && u ≤ 57) || u = 95
    || u = 45

def isAllowedKey (key : JsString) : Bool := 1 ≤ key.length && key.length ≤ 64 && key.all isKeyUnit

/-- A call with its four arguments, each in its own quotes. -/
structure WrittenCall where
  key : JsString
  description : JsString
  type : JsString
  default : JsString
  keyAs : Spelling
  descriptionAs : Spelling
  typeAs : Spelling
  defaultAs : Spelling
  key_allowed : isAllowedKey key = true
  type_known : isFromAIArgumentType type = true

namespace WrittenCall

variable (c : WrittenCall)

/-- The arguments, with the key spelt one way or another. -/
def argsWith (keyAs : Spelling) : JsString :=
  keyAs.write c.key ++ 44 :: (c.descriptionAs.write c.description
    ++ 44 :: (c.typeAs.write c.type ++ 44 :: c.defaultAs.write c.default))

def text : JsString := ofString "$fromAI(" ++ (c.argsWith c.keyAs ++ [41])

/-- The record with the texts as they were before they were quoted. -/
def argument (toNumber : JsString → Option N)
    (jsonParse : JsString → Option (Json N)) : FromAIArgument N where
  key := c.key
  description := some c.description
  type := c.type
  defaultValue := parseDefaultValue toNumber jsonParse (some c.default) c.type

end WrittenCall

/-- A spelling without the spaces that the call start has taken. -/
def Spelling.flush (w : Spelling) : Spelling :=
  { w with
    before := []
    before_isSpace := fun u hu => by cases hu }

theorem dropWhile_write (w : Spelling) (s l : JsString) :
    (w.write s ++ l).dropWhile isSpace = w.flush.write s ++ l := by
  have hquote : isSpace w.quote = false := (IsStop.of_isQuote w.isQuote_quote).1
  rw [w.write_append, dropWhile_append_of_pos w.before_isSpace,
    dropWhile_cons_of_neg (by rw [hquote]; decide), Spelling.write_append]
  rfl

theorem ne_of_isAllowedKey {key : JsString} (h : isAllowedKey key = true)
    (hc : isKeyUnit c = false) : ∀ u ∈ key, u ≠ c := by
  rintro u hu rfl
  simp only [isAllowedKey, Bool.and_eq_true] at h
  have hunit := all_eq_true.mp h.2 u hu
  rw [hc] at hunit
  cases hunit

theorem ne_of_isFromAIArgumentType {type : JsString} (h : isFromAIArgumentType type = true)
    (hc : ∀ word ∈ [ofString "string", ofString "number",
      ofString "boolean", ofString "json"], lowerUnit c ∉ word) :
    ∀ u ∈ type, u ≠ c := by
  rintro u hu rfl
  rw [isFromAIArgumentType, contains_iff_mem] at h
  exact hc _ h (mem_map_of_mem hu)

theorem scanCall_args (c : WrittenCall) (keyAs : Spelling) (l : JsString) :
    scanCall 1 none [] (c.argsWith keyAs ++ 41 :: l) = some (c.argsWith keyAs) := by
  have hcomma : ∀ acc l, scanCall 1 none acc (44 :: l) = scanCall 1 none (acc ++ [44]) l :=
    scanCall_plain (by decide) (by decide) (by decide) 1
  have hclose : ∀ acc l, scanCall 1 none acc (41 :: l) = some acc := fun _ _ => rfl
  simp only [WrittenCall.argsWith, append_assoc, cons_append]
  rw [scanCall_write, hcomma, scanCall_write, hcomma, scanCall_write,
    hcomma, scanCall_write, hclose]
  simp

theorem splitArgs_args (c : WrittenCall) (keyAs : Spelling) :
    splitArgs [] [] none false (c.argsWith keyAs)
      = [trim (keyAs.collected c.key), trim (c.descriptionAs.collected c.description),
        trim (c.typeAs.collected c.type), trim (c.defaultAs.collected c.default)] := by
  have hlast : c.defaultAs.collected c.default ≠ [] :=
    append_ne_nil_of_right_ne_nil _ (cons_ne_nil _ _)
  rw [WrittenCall.argsWith, splitArgs_write, splitArgs_comma, splitArgs_write,
    splitArgs_comma, splitArgs_write, splitArgs_comma,
    ← append_nil (c.defaultAs.write c.default), splitArgs_write, splitArgs, if_neg hlast]
  rfl

variable (toNumber : JsString → Option N) (jsonParse : JsString → Option (Json N))

/-- The record that comes back: description and default unescaped once
    more. -/
def WrittenCall.parsed (c : WrittenCall) : FromAIArgument N where
  key := c.key
  description := some (unescape c.description)
  type := c.type
  defaultValue := parseDefaultValue toNumber jsonParse (some (unescape c.default)) c.type

theorem parseArguments_args (c : WrittenCall) (keyAs : Spelling) :
    parseArguments toNumber jsonParse (c.argsWith keyAs) = .ok (c.parsed toNumber jsonParse) := by
  have hclean : ∀ (w : Spelling) s, cleanArg (trim (w.collected s)) = unescape s := fun w s => by
    rw [trim_collected, cleanArg_quoted w.isQuote_quote]
  have hkey : unescape c.key = c.key :=
    unescape_of_forall (ne_of_isAllowedKey c.key_allowed (by decide))
  have htype : unescape c.type = c.type :=
    unescape_of_forall (ne_of_isFromAIArgumentType c.type_known (by decide))
  rw [parseArguments, splitArgs_args]
  simp only [map_cons, map_nil, hclean, hkey, htype, getElem?_cons_zero,
    getElem?_cons_succ, Option.getD_some, c.type_known, if_true]
  rfl

theorem parseCall_args (c : WrittenCall) (keyAs : Spelling) (l : JsString) :
    parseCall toNumber jsonParse (c.argsWith keyAs ++ 41 :: l)
      = .ok (c.parsed toNumber jsonParse) := by
  rw [parseCall, scanCall_args]
  simp [parseArguments_args]

variable {str : JsString}

theorem extractFromAICalls_of_noCall (h : NoCall str) :
    extractFromAICalls toNumber jsonParse str = .ok [] := by
  rw [extractFromAICalls]
  split
  · rfl
  · next rest hrest => cases h.symm.trans hrest

theorem extractFromAICalls_of_match {rest : JsString} (h : findMatch str = some rest) :
    extractFromAICalls toNumber jsonParse str
      = (parseCall toNumber jsonParse rest).bind fun parsedArgs =>
          (extractFromAICalls toNumber jsonParse rest).bind fun args =>
            .ok (parsedArgs :: args) := by
  rw [extractFromAICalls]
  split
  · next hnone => cases hnone.symm.trans h
  · next rest' hrest =>
      cases Option.some.inj (hrest.symm.trans h)
      rfl

theorem extractFromAICalls_eq_nil_iff :
    extractFromAICalls toNumber jsonParse str = .ok [] ↔ NoCall str := by
  refine ⟨fun h => ?_, extractFromAICalls_of_noCall toNumber jsonParse⟩
  cases hmatch : findMatch str with
  | none => exact hmatch
  | some rest =>
    rw [extractFromAICalls_of_match toNumber jsonParse hmatch] at h
    cases hcall : parseCall toNumber jsonParse rest with
    | error e => rw [hcall] at h; cases h
    | ok parsedArgs =>
      rw [hcall] at h
      cases hmore : extractFromAICalls toNumber jsonParse rest with
      | error e => rw [Except.bind, hmore] at h; cases h
      | ok args => rw [Except.bind, hmore] at h; cases h

section

variable (c : WrittenCall)

theorem dropWhile_args (l : JsString) :
    (c.argsWith c.keyAs ++ l).dropWhile isSpace = c.argsWith c.keyAs.flush ++ l := by
  rw [WrittenCall.argsWith, append_assoc, dropWhile_write, ← append_assoc]
  rfl

theorem findMatch_text {pre : JsString} (hpre : NoCall pre) (post : JsString) :
    findMatch (pre ++ (c.text ++ post)) = some (c.argsWith c.keyAs.flush ++ 41 :: post) := by
  have hword : ofString "$fromAI(" = 36 :: ofString "fromAI(" := by decide
  have hstart : ∀ x : JsString, matchStart (ofString "$fromAI(" ++ x)
      = some (x.dropWhile isSpace) := fun _ => rfl
  rw [WrittenCall.text, append_assoc, append_assoc, hword,
    cons_append, findMatch_append isStop_dollar,
    show findMatch pre = none from hpre, Option.map_none, Option.none_or,
    findMatch_cons, ← cons_append, ← hword, hstart, dropWhile_args]
  rfl

theorem noCall_args (keyAs : Spelling) {post : JsString} (hpost : NoCall post) :
    NoCall (c.argsWith keyAs ++ 41 :: post) ↔ NoCall c.description ∧ NoCall c.default := by
  have hkey : NoCall c.key := noCall_of_forall (ne_of_isAllowedKey c.key_allowed (by decide))
  have htype : NoCall c.type :=
    noCall_of_forall (ne_of_isFromAIArgumentType c.type_known (by decide))
  have hcomma : ∀ {l}, NoCall (44 :: l) ↔ NoCall l := noCall_cons (by decide)
  simp only [WrittenCall.argsWith, append_assoc, cons_append]
  rw [noCall_write, hcomma, noCall_write, hcomma, noCall_write, hcomma,
    noCall_write, noCall_cons (by decide)]
  tauto

theorem extractFromAICalls_text {pre : JsString} (hpre : NoCall pre) (post : JsString) :
    extractFromAICalls toNumber jsonParse (pre ++ (c.text ++ post))
      = (extractFromAICalls toNumber jsonParse
          (c.argsWith c.keyAs.flush ++ 41 :: post)).bind fun args =>
            .ok (c.parsed toNumber jsonParse :: args) := by
  rw [extractFromAICalls_of_match toNumber jsonParse (findMatch_text c hpre post), parseCall_args]
  rfl

end

theorem bind_cons_eq_singleton_iff {ε α : Type} {x : Except ε (List α)} {a b : α} :
    (x.bind fun l => Except.ok (a :: l)) = .ok [b] ↔ x = .ok [] ∧ a = b := by
  cases x with
  | error e =>
    constructor
    · intro h
      cases h
    · intro h
      cases h.1
  | ok l =>
    constructor
    · intro h
      cases h
      exact ⟨rfl, rfl⟩
    · rintro ⟨hl, rfl⟩
      cases hl
      rfl

/-- **WRITTEN AND READ**: a call comes back as the one record it was written
    from exactly when no call starts in its description or default, and
    taking backslashes away again changes neither of the two. -/
theorem parsedBack_iff (c : WrittenCall) {pre post : JsString} (hpre : NoCall pre)
    (hpost : NoCall post) :
    extractFromAICalls toNumber jsonParse (pre ++ (c.text ++ post))
        = .ok [c.argument toNumber jsonParse]
      ↔ NoCall c.description ∧ NoCall c.default ∧ Unpaired c.description
        ∧ (Unpaired c.default ∨ (c.type ≠ ofString "string"
          ∧ parseDefaultValue toNumber jsonParse (some (unescape c.default)) c.type
            = parseDefaultValue toNumber jsonParse (some c.default) c.type)) := by
  rw [extractFromAICalls_text toNumber jsonParse c hpre, bind_cons_eq_singleton_iff,
    extractFromAICalls_eq_nil_iff, noCall_args c _ hpost, ← unescape_eq_self_iff,
    ← unescape_eq_self_iff, and_assoc]
  refine and_congr_right fun _ => and_congr_right fun _ => ?_
  rw [WrittenCall.parsed, WrittenCall.argument, FromAIArgument.mk.injEq, Option.some.injEq]
  constructor
  · rintro ⟨-, hdescription, -, hdefault⟩
    refine ⟨hdescription, ?_⟩
    by_cases htype : c.type = ofString "string"
    · left
      simpa only [parseDefaultValue, htype, if_true, Option.some.injEq,
        Json.string.injEq] using hdefault
    · exact .inr ⟨htype, hdefault⟩
  · rintro ⟨hdescription, hdefault⟩
    refine ⟨rfl, hdescription, rfl, ?_⟩
    rcases hdefault with hsame | ⟨-, hread⟩
    · rw [hsame]
    · exact hread

/-! ## Two calls -/

/-- A text in double quotes, with nothing around it. -/
def plainSpelling : Spelling where
  before := []
  quote := 34
  escaped u := u = 34 || u = 92
  after := []
  before_isSpace u hu := by cases hu
  isQuote_quote := rfl
  escaped_quote := rfl
  escaped_backslash := rfl
  isQuote_of_escaped u hu := by
    simp only [Bool.or_eq_true, decide_eq_true_eq] at hu
    rcases hu with rfl | rfl
    · exact .inl rfl
    · exact .inr rfl
  after_isSpace u hu := by cases hu

def plainCall (description default : JsString) : WrittenCall where
  key := ofString "name"
  description
  type := ofString "string"
  default
  keyAs := plainSpelling
  descriptionAs := plainSpelling
  typeAs := plainSpelling
  defaultAs := plainSpelling
  key_allowed := by decide
  type_known := by decide

/-- `=$fromAI("name","a (\"b\", c","string","") + 1` -/
theorem parsedBack_iff_plain :
    extractFromAICalls (N := Nat) (fun _ => none) (fun _ => none)
        (ofString "=" ++ ((plainCall (ofString "a (\"b\", c") []).text ++ ofString " + 1"))
      = .ok [(plainCall (ofString "a (\"b\", c") []).argument (fun _ => none) fun _ => none] :=
  (parsedBack_iff (fun _ => none) (fun _ => none) _ (by decide)
    (by decide)).mpr ⟨by decide, by decide, by decide, .inl (by decide)⟩

/-- The description `\\`, quoted as `"\\\\"`, comes back as `\`. -/
theorem not_parsedBack_twoBackslashes :
    extractFromAICalls (N := Nat) (fun _ => none) (fun _ => none)
        ([] ++ ((plainCall (ofString "\\\\") []).text ++ []))
      ≠ .ok [(plainCall (ofString "\\\\") []).argument (fun _ => none) fun _ => none] := by
  intro h
  rw [extractFromAICalls_text _ _ _ (by decide), bind_cons_eq_singleton_iff] at h
  have hdescription := congrArg FromAIArgument.description h.2
  exact absurd hdescription (by decide)

end N8nFromAICalls
