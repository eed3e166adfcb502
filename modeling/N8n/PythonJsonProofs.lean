import Mathlib.Data.List.TakeWhile
import Mathlib.Algebra.GroupWithZero.Nat
import N8n.OrderedMapProofs

/-! # JSON in Python — what `json.dumps` writes, `json.loads` reads back

    A string is a list of code points, and a surrogate may stand in it alone.
    With `ensure_ascii=False` such a surrogate is written as it is, so that
    the text can be read back but not be encoded (`encode_isSome`).

    A value is read off the front of any text that does not go on with it
    (`readValue_write`); the entries of a dictionary whose keys come to the
    same string become one. -/

namespace N8nPythonJson

open N8nOrderedMap (setEntry)

/-! ## Strings -/

/-- An element of a Python string. -/
inductive CodePoint where
  | char (c : Char)
  | surrogate (n : Fin 2048)
deriving DecidableEq

abbrev PyStr := List CodePoint

def ofChars (l : List Char) : PyStr := l.map .char

def ofString (s : String) : PyStr := ofChars s.toList

def codePoint (n : Nat) : CodePoint :=
  if 0xD800 ≤ n ∧ n < 0xE000 then .surrogate (Fin.ofNat 2048 (n - 0xD800))
  else .char (Char.ofNat n)

def CodePoint.char? : CodePoint → Option Char
  | .char c => some c
  | .surrogate _ => none

/-- The characters of a string; `none` when there is a surrogate. -/
def chars? (s : PyStr) : Option (List Char) := s.mapM CodePoint.char?

/-- `str.encode("utf-8")`; `none` stands for a `UnicodeEncodeError`. -/
def encode (s : PyStr) : Option (List UInt8) :=
  (chars? s).map fun l => l.flatMap String.utf8EncodeChar

/-- `bytes.decode("utf-8")`; `none` stands for a `UnicodeDecodeError`. -/
def decode (data : List UInt8) : Option PyStr :=
  data.toByteArray.utf8Decode?.map fun l => ofChars l.toList

/-! ## Values -/

/-- A number of JSON: sign, digits without leading zeros, and what follows
    them. -/
structure NumberParts where
  negative : Bool
  digits : List Char
  tail : List Char

def numberParts (token : List Char) : NumberParts :=
  let negative := token.head? = some '-'
  let rest := if negative then token.tail else token
  { negative
    digits := rest.takeWhile Char.isDigit
    tail := rest.dropWhile Char.isDigit }

/-- `0|[1-9]\d*` -/
def isWhole (digits : List Char) : Bool :=
  digits = ['0'] || (digits ≠ [] && digits.head? ≠ some '0')

/-- `\d+` -/
def isDigits (l : List Char) : Bool := l ≠ [] && l.all Char.isDigit

/-- `[eE][-+]?\d+` -/
def isExponent : List Char → Bool
  | 'e' :: '-' :: l => isDigits l
  | 'e' :: '+' :: l => isDigits l
  | 'E' :: '-' :: l => isDigits l
  | 'E' :: '+' :: l => isDigits l
  | 'e' :: l => isDigits l
  | 'E' :: l => isDigits l
  | _ => false

/-- `\.\d+` with or without an exponent, or an exponent alone. -/
def isFraction : List Char → Bool
  | '.' :: l =>
    l.takeWhile Char.isDigit ≠ []
      && (l.dropWhile Char.isDigit = []
        || isExponent (l.dropWhile Char.isDigit))
  | l => isExponent l

def isFloat (token : List Char) : Bool :=
  isWhole (numberParts token).digits && isFraction (numberParts token).tail

/-- A float, by its `repr`. -/
inductive PyFloat where
  | nan
  | infinity (negative : Bool)
  | finite (text : {text : List Char // isFloat text = true})

/-- What a JSON text stands for. -/
inductive Json where
  | null
  | bool (b : Bool)
  | int (i : Int)
  | float (f : PyFloat)
  | str (s : PyStr)
  | list (elements : List Json)
  | dict (entries : List (PyStr × Json))

theorem Json.induct {motive : Json → Prop} (null : motive .null) (bool : ∀ b, motive (.bool b))
    (int : ∀ i, motive (.int i)) (float : ∀ f, motive (.float f)) (str : ∀ s, motive (.str s))
    (list : ∀ l, (∀ t ∈ l, motive t) → motive (.list l))
    (dict : ∀ l, (∀ p ∈ l, motive (Prod.snd p)) → motive (.dict l)) :
    ∀ t, motive t :=
  @Json.rec motive (fun l => ∀ t ∈ l, motive t) (fun l => ∀ p ∈ l, motive p.2)
    (fun p => motive p.2) null bool int float str list dict (fun _ ht => absurd ht List.not_mem_nil)
    (fun _ _ ht hl => List.forall_mem_cons.mpr ⟨ht, hl⟩) (fun _ hp => absurd hp List.not_mem_nil)
    (fun _ _ hp hl => List.forall_mem_cons.mpr ⟨hp, hl⟩) (fun _ _ ht => ht)

/-! ## Writing -/

def hexDigit (n : Nat) : CodePoint := .char (Nat.digitChar n)

def escape : CodePoint → PyStr
  | .surrogate n => [.surrogate n]
  | .char c =>
    if c = '"' then ofChars ['\\', '"']
    else if c = '\\' then ofChars ['\\', '\\']
    else if c = '\n' then ofChars ['\\', 'n']
    else if c = '\r' then ofChars ['\\', 'r']
    else if c = '\t' then ofChars ['\\', 't']
    else if c.toNat = 12 then ofChars ['\\', 'f']
    else if c.toNat = 8 then ofChars ['\\', 'b']
    else if c.toNat < 32 then
      ofChars ['\\', 'u', '0', '0'] ++ [hexDigit (c.toNat / 16), hexDigit (c.toNat % 16)]
    else [.char c]

def quote (s : PyStr) : PyStr := .char '"' :: (s.flatMap escape ++ [.char '"'])

def intText (i : Int) : List Char :=
  if i < 0 then '-' :: Nat.toDigits 10 i.natAbs
  else Nat.toDigits 10 i.natAbs

def floatText : PyFloat → List Char
  | .nan => ['N', 'a', 'N']
  | .infinity false => ['I', 'n', 'f', 'i', 'n', 'i', 't', 'y']
  | .infinity true => ['-', 'I', 'n', 'f', 'i', 'n', 'i', 't', 'y']
  | .finite text => text

/-- The separators are `", "` and `": "`. -/
def comma : PyStr := ofChars [',', ' ']

def colon : PyStr := ofChars [':', ' ']

mutual

/-- The text of a value. -/
def write : Json → PyStr
  | .null => ofChars ['n', 'u', 'l', 'l']
  | .bool true => ofChars ['t', 'r', 'u', 'e']
  | .bool false => ofChars ['f', 'a', 'l', 's', 'e']
  | .int i => ofChars (intText i)
  | .float f => ofChars (floatText f)
  | .str s => quote s
  | .list elements => .char '[' :: writeElements elements
  | .dict entries => .char '{' :: writeEntries entries

def writeElements : List Json → PyStr
  | [] => [.char ']']
  | [t] => write t ++ [.char ']']
  | t :: u :: rest => write t ++ (comma ++ writeElements (u :: rest))

def writeEntries : List (PyStr × Json) → PyStr
  | [] => [.char '}']
  | [(k, t)] => quote k ++ (colon ++ (write t ++ [.char '}']))
  | (k, t) :: p :: rest =>
    quote k ++ (colon ++ (write t ++ (comma ++ writeEntries (p :: rest))))

end

/-! ## Reading -/

def isSpace : CodePoint → Bool
  | .char c => c = ' ' || c = '\t' || c = '\n' || c = '\r'
  | .surrogate _ => false

def skip (s : PyStr) : PyStr := s.dropWhile isSpace

def hexValue : CodePoint → Option Nat
  | .char c =>
    if c.isDigit then some (c.toNat - 48)
    else if 'a' ≤ c ∧ c ≤ 'f' then some (c.toNat - 87)
    else if 'A' ≤ c ∧ c ≤ 'F' then some (c.toNat - 55)
    else none
  | .surrogate _ => none

/-- Four hexadecimal digits. -/
def readHex : PyStr → Option (Nat × PyStr)
  | a :: b :: c :: d :: rest => do
      let a ← hexValue a
      let b ← hexValue b
      let c ← hexValue c
      let d ← hexValue d
      some (((a * 16 + b) * 16 + c) * 16 + d, rest)
  | _ => none

/-- What follows `\u`; two surrogates that belong together are one
    character. -/
def readUnicode (s : PyStr) : Option (CodePoint × PyStr) :=
  match readHex s with
  | none => none
  | some (high, rest) =>
    if 0xD800 ≤ high ∧ high < 0xDC00 then
      match rest with
      | .char '\\' :: .char 'u' :: rest' =>
        match readHex rest' with
        | some (low, rest'') =>
          if 0xDC00 ≤ low ∧ low < 0xE000 then
            some (codePoint (0x10000 + (high - 0xD800) * 0x400 + (low - 0xDC00)), rest'')
          else some (codePoint high, rest)
        | none => none
      | _ => some (codePoint high, rest)
    else some (codePoint high, rest)

/-- What follows a backslash. -/
def readEscape : PyStr → Option (CodePoint × PyStr)
  | .char c :: rest =>
    if c = 'u' then readUnicode rest
    else if c = 'n' then some (.char '\n', rest)
    else if c = 'r' then some (.char '\r', rest)
    else if c = 't' then some (.char '\t', rest)
    else if c = 'f' then some (.char (Char.ofNat 12), rest)
    else if c = 'b' then some (.char (Char.ofNat 8), rest)
    else if c = '"' || c = '\\' || c = '/' then some (.char c, rest)
    else none
  | _ => none

/-- One element of a string literal. -/
def readPoint : PyStr → Option (CodePoint × PyStr)
  | [] => none
  | .surrogate n :: rest => some (.surrogate n, rest)
  | .char c :: rest =>
    if c = '\\' then readEscape rest
    else if c.toNat < 32 then none
    else some (.char c, rest)

/-- A string literal after its opening quote; the number bounds the elements
    that are read. -/
def readString : Nat → PyStr → Option (PyStr × PyStr)
  | 0, _ => none
  | n + 1, s =>
    if s.head? = some (.char '"') then some ([], s.tail)
    else
      match readPoint s with
      | none => none
      | some (c, rest) => (readString n rest).map fun (t, rest) => (c :: t, rest)

/-- What a literal or a number is made of. -/
def isAtomPart : CodePoint → Bool
  | .char c => c.isAlphanum || c = '-' || c = '+' || c = '.'
  | .surrogate _ => false

def readInt (token : List Char) : Option Int :=
  let parts := numberParts token
  if isWhole parts.digits && parts.tail = [] then
    let n : Nat := Nat.ofDigitChars 10 parts.digits 0
    some (if parts.negative then -n else n)
  else none

/-- The value of a literal or a number. -/
def atom (token : List Char) : Option Json :=
  if token = ['n', 'u', 'l', 'l'] then some .null
  else if token = ['t', 'r', 'u', 'e'] then some (.bool true)
  else if token = ['f', 'a', 'l', 's', 'e'] then some (.bool false)
  else if token = floatText .nan then some (.float .nan)
  else if token = floatText (.infinity false) then
    some (.float (.infinity false))
  else if token = floatText (.infinity true) then
    some (.float (.infinity true))
  else if h : isFloat token = true then some (.float (.finite ⟨token, h⟩))
  else (readInt token).map .int

def readAtom (s : PyStr) : Option (Json × PyStr) :=
  (atom ((s.takeWhile isAtomPart).filterMap CodePoint.char?)).map
    fun t => (t, s.dropWhile isAtomPart)

/-- A dictionary of its entries in their order; the last one with a key
    counts. -/
def dictOf (entries : List (PyStr × Json)) : List (PyStr × Json) :=
  entries.foldl (fun d p => setEntry p.1 p.2 d) []

mutual

/-- A value at the front of a text; the number bounds the nesting and the
    elements that are read. -/
def readValue : Nat → PyStr → Option (Json × PyStr)
  | 0, _ => none
  | n + 1, s =>
    match s with
    | .char '"' :: rest =>
      (readString rest.length rest).map fun (t, rest) => (.str t, rest)
    | .char '[' :: rest =>
      match skip rest with
      | .char ']' :: rest => some (.list [], rest)
      | rest => (readElements n rest).map fun (l, rest) => (.list l, rest)
    | .char '{' :: rest =>
      match skip rest with
      | .char '}' :: rest => some (.dict [], rest)
      | rest =>
        (readEntries n rest).map fun (l, rest) =>
          (.dict (dictOf l), rest)
    | s => readAtom s

def readElements : Nat → PyStr → Option (List Json × PyStr)
  | 0, _ => none
  | n + 1, s =>
    match readValue n s with
    | none => none
    | some (t, rest) =>
      match skip rest with
      | .char ',' :: rest =>
        (readElements n (skip rest)).map fun (l, rest) =>
          (t :: l, rest)
      | .char ']' :: rest => some ([t], rest)
      | _ => none

def readEntries : Nat → PyStr → Option (List (PyStr × Json) × PyStr)
  | 0, _ => none
  | n + 1, s =>
    match s with
    | .char '"' :: rest =>
      match readString rest.length rest with
      | none => none
      | some (k, rest) =>
        match skip rest with
        | .char ':' :: rest =>
          match readValue n (skip rest) with
          | none => none
          | some (t, rest) =>
            match skip rest with
            | .char ',' :: rest =>
              (readEntries n (skip rest)).map fun (l, rest) =>
                ((k, t) :: l, rest)
            | .char '}' :: rest => some ([(k, t)], rest)
            | _ => none
        | _ => none
    | _ => none

end

/-- `json.loads` of a string; `none` stands for a `JSONDecodeError`. -/
def loads (s : PyStr) : Option Json :=
  if s.head? = some (.char (Char.ofNat 0xFEFF)) then none
  else
    match readValue s.length (skip s) with
    | none => none
    | some (t, rest) => if skip rest = [] then some t else none

attribute [local simp] write writeElements writeEntries
attribute [local simp] readValue readElements readEntries

/-! ## Strings are read back -/

variable {c : Char} {n : Nat}

theorem toNat_inj_ofNat (h : c.toNat = n) : Char.ofNat n = c := by
  rw [← h, Char.ofNat_toNat]

theorem hexValue_hexDigit : ∀ n < 16, hexValue (hexDigit n) = some n := by
  decide

theorem readUnicode_hexDigit (h : n < 32) (rest : PyStr) :
    readUnicode (.char '0' :: .char '0' :: hexDigit (n / 16)
      :: hexDigit (n % 16) :: rest) = some (codePoint n, rest) := by
  have hzero : hexValue (.char '0') = some 0 := rfl
  have hread : readHex (.char '0' :: .char '0' :: hexDigit (n / 16)
      :: hexDigit (n % 16) :: rest) = some (n, rest) := by
    rw [readHex, hzero, hexValue_hexDigit _ (by omega), hexValue_hexDigit _ (by omega)]
    have hcode : ((0 * 16 + 0) * 16 + n / 16) * 16 + n % 16 = n := by omega
    exact congrArg (fun m => some (m, rest)) hcode
  rw [readUnicode, hread]
  exact if_neg (by omega)

theorem codePoint_toNat (h : c.toNat < 32) : codePoint c.toNat = .char c := by
  rw [codePoint, if_neg (by omega), Char.ofNat_toNat]

theorem readPoint_escape (c : CodePoint) (rest : PyStr) :
    readPoint (escape c ++ rest) = some (c, rest) := by
  cases c with
  | surrogate n => rfl
  | char c =>
    rw [escape]
    split
    · next h => subst h; rfl
    split
    · next h => subst h; rfl
    split
    · next h => subst h; rfl
    split
    · next h => subst h; rfl
    split
    · next h => subst h; rfl
    split
    · next h => rw [← toNat_inj_ofNat h]; rfl
    split
    · next h => rw [← toNat_inj_ofNat h]; rfl
    split
    · next h =>
        rw [← codePoint_toNat h]
        exact readUnicode_hexDigit h rest
    · next hslash _ _ _ _ _ h =>
        show (if c = '\\' then _ else if c.toNat < 32 then _ else _) = _
        rw [if_neg hslash, if_neg h]
        rfl

theorem escape_head (c : CodePoint) : ∃ d rest, escape c = d :: rest ∧ d ≠ .char '"' := by
  cases c with
  | surrogate n => exact ⟨_, _, rfl, by simp⟩
  | char c =>
    rw [escape]
    split
    · exact ⟨_, _, rfl, by decide⟩
    split
    · exact ⟨_, _, rfl, by decide⟩
    split
    · exact ⟨_, _, rfl, by decide⟩
    split
    · exact ⟨_, _, rfl, by decide⟩
    split
    · exact ⟨_, _, rfl, by decide⟩
    split
    · exact ⟨_, _, rfl, by decide⟩
    split
    · exact ⟨_, _, rfl, by decide⟩
    split
    · exact ⟨_, _, rfl, by decide⟩
    · next hquote _ _ _ _ _ _ _ => exact ⟨_, _, rfl, by simpa using hquote⟩

theorem readString_quote (s rest : PyStr) (hn : (s.flatMap escape).length < n) :
    readString n (s.flatMap escape ++ .char '"' :: rest) = some (s, rest) := by
  induction s generalizing n with
  | nil =>
    obtain ⟨n, rfl⟩ := Nat.exists_eq_add_one_of_ne_zero (Nat.ne_of_gt hn)
    rfl
  | cons c s ih =>
    obtain ⟨d, tail, hd, hquote⟩ := escape_head c
    rw [List.flatMap_cons, List.length_append, hd, List.length_cons] at hn
    obtain ⟨n, rfl⟩ := Nat.exists_eq_add_one_of_ne_zero (Nat.ne_of_gt (Nat.zero_lt_of_lt hn))
    rw [List.flatMap_cons, List.append_assoc, readString, if_neg]
    · rw [readPoint_escape]
      dsimp only
      rw [ih (by omega)]
      rfl
    · rw [hd]
      exact fun heq => hquote (Option.some.inj heq)

/-! ## Literals and numbers are read back -/

/-- What comes after a value does not go on with it. -/
def Ends (rest : PyStr) : Prop := ∀ c ∈ rest.head?, isAtomPart c = false

variable {token : List Char} {rest : PyStr}

theorem span_atom (htoken : ∀ c ∈ token, isAtomPart (.char c) = true) (hrest : Ends rest) :
    (ofChars token ++ rest).takeWhile isAtomPart = ofChars token
      ∧ (ofChars token ++ rest).dropWhile isAtomPart = rest := by
  induction token with
  | nil =>
    cases rest with
    | nil => exact ⟨rfl, rfl⟩
    | cons c rest =>
      have hc : ¬ isAtomPart c = true := by
        rw [hrest c rfl]
        exact Bool.false_ne_true
      exact ⟨List.takeWhile_cons_of_neg hc, List.dropWhile_cons_of_neg hc⟩
  | cons c token ih =>
    obtain ⟨hc, htoken⟩ := List.forall_mem_cons.mp htoken
    obtain ⟨htake, hdrop⟩ := ih htoken
    refine ⟨?_, ?_⟩
    · exact (List.takeWhile_cons_of_pos hc).trans (congrArg _ htake)
    · exact (List.dropWhile_cons_of_pos hc).trans hdrop

theorem filterMap_ofChars (l : List Char) : (ofChars l).filterMap CodePoint.char? = l := by
  rw [ofChars, List.filterMap_map]
  exact List.filterMap_some

/-- The value is written as a literal or a number. -/
structure IsAtom (t : Json) (token : List Char) : Prop where
  write : write t = ofChars token
  ne_nil : token ≠ []
  parts : ∀ c ∈ token, isAtomPart (.char c) = true
  atom : atom token = some t

variable {t : Json}

theorem IsAtom.readAtom (h : IsAtom t token) (hrest : Ends rest) :
    readAtom (ofChars token ++ rest) = some (t, rest) := by
  obtain ⟨htake, hdrop⟩ := span_atom h.parts hrest
  rw [N8nPythonJson.readAtom, htake, hdrop, filterMap_ofChars, h.atom]
  rfl

theorem isAtomPart_digit (h : c.isDigit = true) : isAtomPart (.char c) = true := by
  have halnum : c.isAlphanum = true := by
    rw [Char.isAlphanum, h, Bool.or_true]
  rw [isAtomPart, halnum]
  rfl

variable {l : List Char}

theorem parts_of_isDigits (h : isDigits l = true) : ∀ c ∈ l, isAtomPart (.char c) = true :=
  fun c hc => isAtomPart_digit (List.all_eq_true.mp (Bool.and_eq_true_iff.mp h).2 c hc)

theorem parts_of_isExponent (h : isExponent l = true) : ∀ c ∈ l, isAtomPart (.char c) = true := by
  unfold isExponent at h
  split at h
  · exact List.forall_mem_cons.mpr ⟨by decide,
      List.forall_mem_cons.mpr ⟨by decide, parts_of_isDigits h⟩⟩
  · exact List.forall_mem_cons.mpr ⟨by decide,
      List.forall_mem_cons.mpr ⟨by decide, parts_of_isDigits h⟩⟩
  · exact List.forall_mem_cons.mpr ⟨by decide,
      List.forall_mem_cons.mpr ⟨by decide, parts_of_isDigits h⟩⟩
  · exact List.forall_mem_cons.mpr ⟨by decide,
      List.forall_mem_cons.mpr ⟨by decide, parts_of_isDigits h⟩⟩
  · exact List.forall_mem_cons.mpr ⟨by decide, parts_of_isDigits h⟩
  · exact List.forall_mem_cons.mpr ⟨by decide, parts_of_isDigits h⟩
  · cases h

theorem parts_of_dropWhile (h : ∀ c ∈ l.dropWhile Char.isDigit, isAtomPart (.char c) = true) :
    ∀ c ∈ l, isAtomPart (.char c) = true := by
  intro c hc
  rw [← List.takeWhile_append_dropWhile (p := Char.isDigit) (l := l)] at hc
  rcases List.mem_append.mp hc with hc | hc
  · exact isAtomPart_digit (List.mem_takeWhile_imp hc)
  · exact h c hc

theorem parts_of_isFraction (h : isFraction l = true) : ∀ c ∈ l, isAtomPart (.char c) = true := by
  unfold isFraction at h
  split at h
  · next l =>
      refine List.forall_mem_cons.mpr ⟨by decide, parts_of_dropWhile ?_⟩
      rcases Bool.or_eq_true_iff.mp (Bool.and_eq_true_iff.mp h).2 with hnil | hexp
      · rw [of_decide_eq_true hnil]
        exact fun c hc => absurd hc List.not_mem_nil
      · exact parts_of_isExponent hexp
  · exact parts_of_isExponent h

theorem parts_of_isFloat (h : isFloat token = true) : ∀ c ∈ token, isAtomPart (.char c) = true := by
  have htail := parts_of_isFraction (Bool.and_eq_true_iff.mp h).2
  rw [numberParts] at htail
  cases token with
  | nil => exact fun c hc => absurd hc List.not_mem_nil
  | cons c l =>
    by_cases hminus : c = '-'
    · subst hminus
      exact List.forall_mem_cons.mpr ⟨by decide, parts_of_dropWhile htail⟩
    · have hhead : ¬ (c :: l).head? = some '-' :=
        fun heq => hminus (Option.some.inj heq)
      simp only [hhead, if_false] at htail
      exact parts_of_dropWhile htail

theorem atom_of_isFloat (h : isFloat token = true) :
    atom token = some (.float (.finite ⟨token, h⟩)) := by
  have hother : ∀ other, isFloat other = false → token ≠ other := by
    rintro other hother rfl
    rw [h] at hother
    cases hother
  rw [atom, if_neg (hother _ (by decide)), if_neg (hother _ (by decide)),
    if_neg (hother _ (by decide)), if_neg (hother _ (by decide)),
    if_neg (hother _ (by decide)), if_neg (hother _ (by decide)), dif_pos h]

theorem atom_of_readInt {i : Int} (h : readInt token = some i) (hfloat : isFloat token = false) :
    atom token = some (.int i) := by
  have hother : ∀ other, readInt other = none → token ≠ other := by
    rintro other hother rfl
    cases h.symm.trans hother
  rw [atom, if_neg (hother _ (by decide)), if_neg (hother _ (by decide)),
    if_neg (hother _ (by decide)), if_neg (hother _ (by decide)), if_neg (hother _ (by decide)),
    if_neg (hother _ (by decide)), dif_neg (by rw [hfloat]; exact Bool.false_ne_true), h]
  rfl

theorem isDigit_of_mem (h : c ∈ Nat.toDigits 10 n) : c.isDigit = true :=
  Nat.isDigit_of_mem_toDigits (by decide) (by decide) h

theorem head?_toDigits (hn : 0 < n) : (Nat.toDigits 10 n).head? ≠ some '0' := by
  induction n using Nat.strongRecOn with
  | ind n ih =>
    by_cases hlt : n < 10
    · rw [Nat.toDigits_of_lt_base hlt]
      have hdigit : ∀ d < 10, 0 < d → Nat.digitChar d ≠ '0' := by decide
      exact fun heq => hdigit n hlt hn (Option.some.inj heq)
    · rw [Nat.toDigits_of_base_le (by decide) (Nat.not_lt.mp hlt),
        List.head?_append_of_ne_nil _ Nat.toDigits_ne_nil]
      exact ih (n / 10) (by omega) (by omega)

theorem isWhole_toDigits (n : Nat) : isWhole (Nat.toDigits 10 n) = true := by
  rcases Nat.eq_zero_or_pos n with rfl | hn
  · decide
  · rw [isWhole, decide_eq_true (p := _ ≠ []) Nat.toDigits_ne_nil,
      decide_eq_true (p := _ ≠ some '0') (head?_toDigits hn), Bool.and_self, Bool.or_true]

theorem numberParts_intText (i : Int) :
    numberParts (intText i)
      = { negative := i < 0
          digits := Nat.toDigits 10 i.natAbs
          tail := [] } := by
  have htake : (Nat.toDigits 10 i.natAbs).takeWhile Char.isDigit = Nat.toDigits 10 i.natAbs :=
    List.takeWhile_eq_self_iff.mpr fun c hc => isDigit_of_mem hc
  have hdrop : (Nat.toDigits 10 i.natAbs).dropWhile Char.isDigit = [] :=
    List.dropWhile_eq_nil_iff.mpr fun c hc => isDigit_of_mem hc
  rw [intText, numberParts]
  by_cases hneg : i < 0
  · simp [htake, hdrop, hneg]
  · have hhead : (Nat.toDigits 10 i.natAbs).head? ≠ some '-' := by
      intro heq
      have hdigit := isDigit_of_mem (List.mem_of_head? heq)
      revert hdigit
      decide
    simp [hhead, htake, hdrop, hneg]

theorem readInt_intText (i : Int) : readInt (intText i) = some i := by
  rw [readInt, numberParts_intText]
  simp only [isWhole_toDigits, decide_true, Bool.and_self, if_true, Nat.ofDigitChars_ten_toDigits]
  by_cases hneg : i < 0
  · simp only [hneg, decide_true, if_true]
    rw [Int.ofNat_natAbs_of_nonpos (Int.le_of_lt hneg), Int.neg_neg]
  · simp only [hneg, decide_false, Bool.false_eq_true, if_false]
    rw [Int.natAbs_of_nonneg (Int.not_lt.mp hneg)]

theorem isAtom_int (i : Int) : IsAtom (.int i) (intText i) := by
  refine ⟨by rw [write], ?_, ?_, atom_of_readInt (readInt_intText i) ?_⟩
  · rw [intText]
    split
    · exact List.cons_ne_nil _ _
    · exact Nat.toDigits_ne_nil
  · have hdigits : ∀ c ∈ Nat.toDigits 10 i.natAbs, isAtomPart (.char c) = true :=
      fun c hc => isAtomPart_digit (isDigit_of_mem hc)
    rw [intText]
    split
    · exact List.forall_mem_cons.mpr ⟨by decide, hdigits⟩
    · exact hdigits
  · rw [isFloat, numberParts_intText]
    exact Bool.and_false _

theorem isAtom_null : IsAtom .null ['n', 'u', 'l', 'l'] :=
  ⟨by rw [write], by decide, List.all_eq_true.mp rfl, rfl⟩

theorem isAtom_true : IsAtom (.bool true) ['t', 'r', 'u', 'e'] :=
  ⟨by rw [write], by decide, List.all_eq_true.mp rfl, rfl⟩

theorem isAtom_false : IsAtom (.bool false) ['f', 'a', 'l', 's', 'e'] :=
  ⟨by rw [write], by decide, List.all_eq_true.mp rfl, rfl⟩

theorem isAtom_float (f : PyFloat) : IsAtom (.float f) (floatText f) := by
  cases f with
  | nan => exact ⟨by rw [write], by decide, List.all_eq_true.mp rfl, rfl⟩
  | infinity negative =>
    cases negative with
    | true => exact ⟨by rw [write], by decide, List.all_eq_true.mp rfl, rfl⟩
    | false => exact ⟨by rw [write], by decide, List.all_eq_true.mp rfl, rfl⟩
  | finite text =>
    obtain ⟨text, h⟩ := text
    refine ⟨by rw [write], ?_, parts_of_isFloat h, atom_of_isFloat h⟩
    rintro rfl
    cases h

/-! ## Values are read back -/

mutual

/-- What is read back: of the entries that come to one key the last one
    counts. -/
def readBack : Json → Json
  | .null => .null
  | .bool b => .bool b
  | .int i => .int i
  | .float f => .float f
  | .str s => .str s
  | .list elements => .list (normElements elements)
  | .dict entries => .dict (dictOf (normEntries entries))

def normElements : List Json → List Json
  | [] => []
  | t :: rest => readBack t :: normElements rest

def normEntries : List (PyStr × Json) → List (PyStr × Json)
  | [] => []
  | (k, t) :: rest => (k, readBack t) :: normEntries rest

end

attribute [local simp] readBack normElements normEntries

/-- A value does not begin with a space or a closing bracket. -/
def Starts (s : PyStr) : Prop :=
  ∃ c rest, s = .char c :: rest ∧ isSpace (.char c) = false ∧ c ≠ ']'
    ∧ c ≠ '}' ∧ c ≠ Char.ofNat 0xFEFF

theorem IsAtom.starts (h : IsAtom t token) : Starts (N8nPythonJson.write t) := by
  obtain ⟨c, rest, rfl⟩ := List.exists_cons_of_ne_nil h.ne_nil
  refine ⟨c, ofChars rest, h.write, ?_⟩
  have hpart := h.parts c (List.mem_cons_self ..)
  have hother : ∀ d, isAtomPart (.char d) = false → c ≠ d := by
    rintro d hd rfl
    rw [hpart] at hd
    cases hd
  refine ⟨?_, hother ']' (by decide), hother '}' (by decide),
    hother _ (by decide)⟩
  simp [isSpace, hother ' ' (by decide), hother '\t' (by decide), hother '\n' (by decide), hother
    '\r' (by decide)]

theorem starts_write (t : Json) : Starts (write t) := by
  cases t with
  | null => exact ⟨_, _, by rw [write]; rfl, by decide⟩
  | bool b =>
    cases b with
    | true => exact ⟨_, _, by rw [write]; rfl, by decide⟩
    | false => exact ⟨_, _, by rw [write]; rfl, by decide⟩
  | int i => exact (isAtom_int i).starts
  | float f => exact (isAtom_float f).starts
  | str s => exact ⟨_, _, by rw [write]; rfl, by decide⟩
  | list l => exact ⟨_, _, by rw [write], by decide⟩
  | dict l => exact ⟨_, _, by rw [write], by decide⟩

variable {s : PyStr}

theorem skip_of_starts (h : Starts s) : skip s = s := by
  obtain ⟨c, rest, rfl, hspace, -⟩ := h
  exact List.dropWhile_cons_of_neg (by rw [hspace]; exact Bool.false_ne_true)

theorem ends_cons (h : isAtomPart (.char c) = false) (rest : PyStr) : Ends (.char c :: rest) := by
  rintro _ ⟨⟩
  exact h

/-- The value is read off the front of a text. -/
def ReadsBack (t : Json) : Prop :=
  ∀ n rest, (write t).length ≤ n → Ends rest →
    readValue n (write t ++ rest) = some (readBack t, rest)

theorem readValue_atom (n : Nat) (hs : s = .char c :: rest) (hpart : isAtomPart (.char c) = true) :
    readValue (n + 1) s = readAtom s := by
  have hother : ∀ d, isAtomPart (.char d) = false → c ≠ d := by
    rintro d hd rfl
    rw [hpart] at hd
    cases hd
  rw [readValue]
  · exact fun _ heq => hother '"' (by decide)
      (by cases hs.symm.trans heq; rfl)
  · exact fun _ heq => hother '[' (by decide) (by cases hs.symm.trans heq; rfl)
  · exact fun _ heq => hother '{' (by decide)
      (by cases hs.symm.trans heq; rfl)

theorem length_pos_write (t : Json) : 0 < (write t).length := by
  obtain ⟨c, rest, heq, -⟩ := starts_write t
  rw [heq]
  exact Nat.succ_pos _

theorem IsAtom.readsBack (h : IsAtom t token) (hnorm : readBack t = t) : ReadsBack t := by
  intro n rest hn hrest
  obtain ⟨n, rfl⟩ := Nat.exists_eq_add_one_of_ne_zero
    (Nat.ne_of_gt (Nat.lt_of_lt_of_le (length_pos_write t) hn))
  obtain ⟨c, tail, rfl⟩ := List.exists_cons_of_ne_nil h.ne_nil
  have hcons : ofChars (c :: tail) ++ rest = .char c :: (ofChars tail ++ rest) := rfl
  rw [h.write, readValue_atom n hcons (h.parts c (List.mem_cons_self ..)), h.readAtom hrest, hnorm]

theorem readString_write (s rest : PyStr) :
    readString ((s.flatMap escape ++ [CodePoint.char '"']) ++ rest).length
      ((s.flatMap escape ++ [CodePoint.char '"']) ++ rest)
      = some (s, rest) := by
  rw [List.append_assoc]
  refine readString_quote s rest ?_
  rw [List.length_append]
  exact Nat.lt_add_of_pos_right (Nat.succ_pos _)

theorem readsBack_str (s : PyStr) : ReadsBack (.str s) := by
  intro n rest hn _
  rw [write] at hn ⊢
  obtain ⟨n, rfl⟩ := Nat.exists_eq_add_one_of_ne_zero
    (Nat.ne_of_gt (Nat.lt_of_lt_of_le (Nat.succ_pos _) hn))
  rw [quote, List.cons_append, readValue, readString_write]
  rfl

theorem skip_space (h : Starts s) : skip (.char ' ' :: s) = s := skip_of_starts h

theorem starts_writeElements (t : Json) (l : List Json) (rest : PyStr) :
    Starts (writeElements (t :: l) ++ rest) := by
  obtain ⟨c, tail, heq, hc⟩ := starts_write t
  cases l with
  | nil =>
    rw [writeElements, heq]
    exact ⟨c, _, rfl, hc⟩
  | cons u l =>
    rw [writeElements, heq]
    exact ⟨c, _, rfl, hc⟩

theorem readElements_write (t : Json) (l : List Json) (h : ∀ u ∈ t :: l, ReadsBack u)
    (n : Nat) (rest : PyStr) (hn : (writeElements (t :: l)).length ≤ n) :
    readElements n (writeElements (t :: l) ++ rest) = some (normElements (t :: l), rest) := by
  obtain ⟨ht, hl⟩ := List.forall_mem_cons.mp h
  induction l generalizing t n with
  | nil =>
    rw [writeElements, List.length_append] at hn
    obtain ⟨n, rfl⟩ := Nat.exists_eq_add_one_of_ne_zero
      (Nat.ne_of_gt (Nat.lt_of_lt_of_le (Nat.succ_pos _) hn))
    have hend : Ends ([CodePoint.char ']'] ++ rest) := ends_cons (by decide) rest
    rw [writeElements, List.append_assoc, readElements, ht n _ (Nat.le_of_succ_le_succ hn) hend]
    rfl
  | cons u l ih =>
    obtain ⟨hu, hl'⟩ := List.forall_mem_cons.mp hl
    have hstart := starts_writeElements u l rest
    rw [writeElements, List.length_append, List.length_append] at hn
    have hcomma : comma.length = 2 := rfl
    obtain ⟨n, rfl⟩ := Nat.exists_eq_add_one_of_ne_zero (n := n) (by omega)
    have hend : Ends (comma ++ (writeElements (u :: l) ++ rest)) := ends_cons (by decide) _
    have hrest := ih u hl n (by omega) hu hl'
    rw [writeElements, List.append_assoc, List.append_assoc, readElements, ht n _ (by omega) hend]
    show (readElements n (skip (.char ' ' :: (writeElements (u :: l) ++ rest)))).map _ = _
    rw [skip_space hstart, hrest]
    rfl

theorem starts_writeEntries (p : PyStr × Json) (l : List (PyStr × Json))
    (rest : PyStr) : Starts (writeEntries (p :: l) ++ rest) := by
  cases l with
  | nil =>
    exact ⟨'"', _, rfl, by decide⟩
  | cons q l =>
    exact ⟨'"', _, rfl, by decide⟩

theorem readEntries_entry (k : PyStr)
    (ht : ReadsBack t) (hn : (write t).length ≤ n) (hrest : Ends rest) :
    readEntries (n + 1) (quote k ++ (colon ++ (write t ++ rest)))
      = match skip rest with
        | .char ',' :: rest =>
          (readEntries n (skip rest)).map fun (l, rest) =>
            ((k, readBack t) :: l, rest)
        | .char '}' :: rest => some ([(k, readBack t)], rest)
        | _ => none := by
  have hstart : Starts (write t ++ rest) := by
    obtain ⟨c, tail, heq, hc⟩ := starts_write t
    rw [heq]
    exact ⟨c, _, rfl, hc⟩
  rw [quote, List.cons_append, readEntries, readString_write]
  show (match readValue n (skip (.char ' ' :: (write t ++ rest))) with
    | none => _
    | some (t, rest) => _) = _
  rw [skip_space hstart, ht n rest hn hrest]

theorem readEntries_write (p : PyStr × Json) (l : List (PyStr × Json))
    (h : ∀ q ∈ p :: l, ReadsBack q.2) (n : Nat) (rest : PyStr)
    (hn : (writeEntries (p :: l)).length ≤ n) :
    readEntries n (writeEntries (p :: l) ++ rest) = some (normEntries (p :: l), rest) := by
  obtain ⟨k, t⟩ := p
  obtain ⟨ht, hl⟩ := List.forall_mem_cons.mp h
  replace ht : ReadsBack t := ht
  induction l generalizing k t n with
  | nil =>
    rw [writeEntries, List.length_append, List.length_append, List.length_append] at hn
    have hcolon : colon.length = 2 := rfl
    obtain ⟨n, rfl⟩ := Nat.exists_eq_add_one_of_ne_zero (n := n) (by omega)
    have hend : Ends ([CodePoint.char '}'] ++ rest) := ends_cons (by decide) rest
    rw [writeEntries, List.append_assoc, List.append_assoc,
      List.append_assoc, readEntries_entry k ht (by omega) hend]
    rfl
  | cons q l ih =>
    obtain ⟨k', u⟩ := q
    obtain ⟨hu, hl'⟩ := List.forall_mem_cons.mp hl
    have hstart := starts_writeEntries (k', u) l rest
    rw [writeEntries, List.length_append, List.length_append,
      List.length_append, List.length_append] at hn
    have hcolon : colon.length = 2 := rfl
    obtain ⟨n, rfl⟩ := Nat.exists_eq_add_one_of_ne_zero (n := n) (by omega)
    have hend : Ends (comma ++ (writeEntries ((k', u) :: l) ++ rest)) := ends_cons (by decide) _
    have hrest := ih n k' u hl (by omega) hl' hu
    rw [writeEntries, List.append_assoc, List.append_assoc, List.append_assoc,
      List.append_assoc, readEntries_entry k ht (by omega) hend]
    show (readEntries n (skip (.char ' ' :: (writeEntries ((k', u) :: l) ++ rest)))).map _ = _
    rw [skip_space hstart, hrest]
    rfl

theorem readValue_list (h : Starts s) (n : Nat) :
    readValue (n + 1) (.char '[' :: s)
      = (readElements n s).map fun (l, rest) => (.list l, rest) := by
  obtain ⟨c, rest, hs, -, hbracket, -⟩ := id h
  rw [readValue, skip_of_starts h]
  split
  · cases hs
    exact absurd rfl hbracket
  · rfl

theorem readValue_dict (h : Starts s) (n : Nat) :
    readValue (n + 1) (.char '{' :: s)
      = (readEntries n s).map fun (l, rest) => (.dict (dictOf l), rest) := by
  obtain ⟨c, rest, hs, -, -, hbracket, -⟩ := id h
  rw [readValue, skip_of_starts h]
  split
  · cases hs
    exact absurd rfl hbracket
  · rfl

theorem readsBack_list {l : List Json} (h : ∀ t ∈ l, ReadsBack t) : ReadsBack (.list l) := by
  intro n rest hn _
  rw [write] at hn ⊢
  obtain ⟨n, rfl⟩ := Nat.exists_eq_add_one_of_ne_zero
    (Nat.ne_of_gt (Nat.lt_of_lt_of_le (Nat.succ_pos _) hn))
  cases l with
  | nil => rfl
  | cons t l =>
    rw [List.cons_append, readValue_list (starts_writeElements t l rest),
      readElements_write t l h n rest (Nat.le_of_succ_le_succ hn), readBack]
    rfl

theorem readsBack_dict {l : List (PyStr × Json)}
    (h : ∀ p ∈ l, ReadsBack p.2) : ReadsBack (.dict l) := by
  intro n rest hn _
  rw [write] at hn ⊢
  obtain ⟨n, rfl⟩ := Nat.exists_eq_add_one_of_ne_zero
    (Nat.ne_of_gt (Nat.lt_of_lt_of_le (Nat.succ_pos _) hn))
  cases l with
  | nil => rfl
  | cons p l =>
    rw [List.cons_append, readValue_dict (starts_writeEntries p l rest),
      readEntries_write p l h n rest (Nat.le_of_succ_le_succ hn), readBack]
    rfl

/-- **ROUND TRIP**: a value is read off the front of any text that does not
    go on with it. -/
theorem readValue_write (t : Json) : ReadsBack t := by
  induction t using Json.induct with
  | null => exact isAtom_null.readsBack rfl
  | bool b =>
    cases b with
    | true => exact isAtom_true.readsBack rfl
    | false => exact isAtom_false.readsBack rfl
  | int i => exact (isAtom_int i).readsBack (by rw [readBack])
  | float f => exact (isAtom_float f).readsBack (by rw [readBack])
  | str s => exact readsBack_str s
  | list l ih => exact readsBack_list ih
  | dict l ih => exact readsBack_dict ih

/-- **LOADS AFTER DUMPS** -/
theorem loads_write (t : Json) : loads (write t) = some (readBack t) := by
  have hstart := starts_write t
  have hread := readValue_write t (write t).length [] (Nat.le_refl _) (fun c hc => by cases hc)
  rw [List.append_nil] at hread
  rw [loads, if_neg, skip_of_starts hstart, hread]
  · rfl
  · obtain ⟨c, rest, heq, -, -, -, hbom⟩ := hstart
    rw [heq]
    exact fun h => hbom (CodePoint.char.inj (Option.some.inj h))

/-! ## Encoding -/

def isChar (c : CodePoint) : Bool := c.char?.isSome

mutual

/-- No string in the value has a surrogate. -/
def isClean : Json → Bool
  | .null => true
  | .bool _ => true
  | .int _ => true
  | .float _ => true
  | .str s => s.all isChar
  | .list elements => isCleanElements elements
  | .dict entries => isCleanEntries entries

def isCleanElements : List Json → Bool
  | [] => true
  | t :: rest => isClean t && isCleanElements rest

def isCleanEntries : List (PyStr × Json) → Bool
  | [] => true
  | (k, t) :: rest => k.all isChar && isClean t && isCleanEntries rest

end

attribute [local simp] isClean isCleanElements isCleanEntries

theorem all_ofChars (l : List Char) : (ofChars l).all isChar = true := by
  rw [ofChars, List.all_map]
  exact List.all_eq_true.mpr fun _ _ => rfl

theorem all_escape (c : CodePoint) : (escape c).all isChar = isChar c := by
  cases c with
  | surrogate n => rfl
  | char c =>
    rw [escape]
    split
    · rfl
    split
    · rfl
    split
    · rfl
    split
    · rfl
    split
    · rfl
    split
    · rfl
    split
    · rfl
    split
    · rfl
    · rfl

theorem all_quote (s : PyStr) : (quote s).all isChar = s.all isChar := by
  rw [quote, List.all_cons, List.all_append, List.all_flatMap]
  simp only [all_escape]
  exact (Bool.true_and _).trans (Bool.and_true _)

theorem all_comma : comma.all isChar = true := rfl

theorem all_colon : colon.all isChar = true := rfl

theorem all_writeElements {l : List Json} (h : ∀ t ∈ l, (write t).all isChar = isClean t) :
    (writeElements l).all isChar = isCleanElements l := by
  induction l with
  | nil => rfl
  | cons t l ih =>
    obtain ⟨ht, hl⟩ := List.forall_mem_cons.mp h
    cases l with
    | nil =>
      rw [writeElements, List.all_append, ht, isCleanElements]
      rfl
    | cons u l =>
      rw [writeElements, List.all_append, List.all_append, ht, all_comma, ih hl, Bool.true_and]
      rfl

theorem all_writeEntries {l : List (PyStr × Json)}
    (h : ∀ p ∈ l, (write (Prod.snd p)).all isChar = isClean p.2) :
    (writeEntries l).all isChar = isCleanEntries l := by
  induction l with
  | nil => rfl
  | cons p l ih =>
    obtain ⟨k, t⟩ := p
    obtain ⟨ht, hl⟩ := List.forall_mem_cons.mp h
    cases l with
    | nil =>
      rw [writeEntries, List.all_append, List.all_append, List.all_append, all_quote,
        all_colon, ht, isCleanEntries, Bool.and_assoc]
      rfl
    | cons q l =>
      rw [writeEntries, List.all_append, List.all_append, List.all_append, List.all_append,
        all_quote, all_colon, ht, all_comma, ih hl, Bool.true_and, Bool.true_and, ← Bool.and_assoc]
      rfl

theorem all_write (t : Json) : (write t).all isChar = isClean t := by
  induction t using Json.induct with
  | null => rw [write, isClean, all_ofChars]
  | bool b =>
    cases b with
    | true => rw [write, isClean, all_ofChars]
    | false => rw [write, isClean, all_ofChars]
  | int i => rw [write, isClean, all_ofChars]
  | float f => rw [write, isClean, all_ofChars]
  | str s => rw [write, isClean, all_quote]
  | list l ih =>
    rw [write, isClean, ← all_writeElements ih]
    rfl
  | dict l ih =>
    rw [write, isClean, ← all_writeEntries ih]
    rfl

theorem chars?_eq_some (h : chars? s = some l) : s = ofChars l := by
  induction s generalizing l with
  | nil =>
    cases h
    rfl
  | cons c s ih =>
    rw [chars?, List.mapM_cons] at h
    obtain ⟨d, hd, h⟩ := Option.bind_eq_some_iff.mp h
    obtain ⟨rest, hrest, h⟩ := Option.bind_eq_some_iff.mp h
    cases h
    rw [ih hrest]
    cases c with
    | char c =>
      cases hd
      rfl
    | surrogate n => cases hd

theorem chars?_isSome (s : PyStr) : (chars? s).isSome = s.all isChar := by
  induction s with
  | nil => rfl
  | cons c s ih =>
    rw [List.all_cons, ← ih, chars?, List.mapM_cons, isChar, chars?]
    cases c.char? with
    | none => rfl
    | some d =>
      cases List.mapM CodePoint.char? s with
      | none => rfl
      | some l => rfl

theorem encode_isSome (s : PyStr) : (encode s).isSome = s.all isChar := by
  rw [encode, Option.isSome_map, chars?_isSome]

/-- The bytes of a text; a surrogate would take three. -/
def utf8Length (s : PyStr) : Nat := (s.map fun c => (c.char?.map Char.utf8Size).getD 3).sum

theorem utf8Length_ofChars (l : List Char) :
    utf8Length (ofChars l) = (l.map Char.utf8Size).sum := by
  rw [utf8Length, ofChars, List.map_map]
  rfl

theorem length_encode {data : List UInt8}
    (h : encode s = some data) : data.length = utf8Length s := by
  obtain ⟨l, hl, rfl⟩ := Option.map_eq_some_iff.mp h
  rw [chars?_eq_some hl, utf8Length_ofChars, List.length_flatMap]
  congr 1
  exact List.map_congr_left fun c _ => String.length_utf8EncodeChar c

theorem decode_encode {data : List UInt8} (h : encode s = some data) : decode data = some s := by
  obtain ⟨l, hl, rfl⟩ := Option.map_eq_some_iff.mp h
  rw [chars?_eq_some hl, decode]
  show ((l.utf8Encode).utf8Decode?.map _) = _
  rw [List.utf8Decode?_utf8Encode]
  rfl

/-! ## Values of Python -/

section

variable {X : Type}

/-- A key of a dictionary; one of another type raises a `TypeError`. -/
inductive PyKey (X : Type) where
  | none
  | bool (b : Bool)
  | int (i : Int)
  | float (f : PyFloat)
  | str (s : PyStr)
  | other (error : X)

/-- A value as `json.dumps` meets it.  A tuple is a list, and `other` is any
    object, with what `default=str` makes of it.  At `raising` an exception
    is raised: by that call, for a circular reference, an integer of too many
    digits or values nested too deeply. -/
inductive PyValue (X : Type) where
  | none
  | bool (b : Bool)
  | int (i : Int)
  | float (f : PyFloat)
  | str (s : PyStr)
  | list (elements : List (PyValue X))
  | dict (entries : List (PyKey X × PyValue X))
  | other (text : PyStr)
  | raising (error : X)

def keyText : PyKey X → Except X PyStr
  | .none => .ok (ofChars ['n', 'u', 'l', 'l'])
  | .bool true => .ok (ofChars ['t', 'r', 'u', 'e'])
  | .bool false => .ok (ofChars ['f', 'a', 'l', 's', 'e'])
  | .int i => .ok (ofChars (intText i))
  | .float f => .ok (ofChars (floatText f))
  | .str s => .ok s
  | .other error => .error error

mutual

/-- The JSON of a value, or the first exception that is raised. -/
def toJson : PyValue X → Except X Json
  | .none => .ok .null
  | .bool b => .ok (.bool b)
  | .int i => .ok (.int i)
  | .float f => .ok (.float f)
  | .str s => .ok (.str s)
  | .list elements => (toJsonElements elements).map .list
  | .dict entries => (toJsonEntries entries).map .dict
  | .other text => .ok (.str text)
  | .raising error => .error error

def toJsonElements : List (PyValue X) → Except X (List Json)
  | [] => .ok []
  | v :: rest => do
      let t ← toJson v
      let l ← toJsonElements rest
      .ok (t :: l)

def toJsonEntries : List (PyKey X × PyValue X) → Except X (List (PyStr × Json))
  | [] => .ok []
  | (key, v) :: rest => do
      let k ← keyText key
      let t ← toJson v
      let l ← toJsonEntries rest
      .ok ((k, t) :: l)

end

/-- `json.dumps(v, default=str, ensure_ascii=False)` -/
def dumps (v : PyValue X) : Except X PyStr := (toJson v).map write

end

end N8nPythonJson
