import N8n.PythonJsonProofs

/-! # The pipe of a Python task — one message, length first

    The child serialises its result, or what it can tell of the exception,
    and writes the length of the text and the text.  Whatever goes wrong in
    serialising the result is reported as an error, but the report holds the
    same `print()` arguments, and there is nothing behind it.

    What was written is read back whole however it arrives, and a part of it
    is no message (`run_frame`, `run_of_prefix`).  `delivers_iff` says when
    something is written at all. -/

namespace N8nPipeMessage

open N8nOrderedMap (findKey findKey_nil findKey_cons setEntry_nil
  setEntry_cons)
open N8nPythonJson

/-! ## Constants -/

def PIPE_MSG_PREFIX_LENGTH : Nat := 4

def MAX_PRINT_ARGS_ALLOWED : Nat := 100

/-! ## Writing -/

/-- An exception: its code if it is a `SystemExit`, its text, its
    `description` (or `""`) and its traceback.  A text is `none` when making
    it raises; a `description` that raises is a raising value. -/
structure PyException where
  systemExit : Option (Option PyStr)
  str : Option PyStr
  description : PyValue Unit
  stack : PyStr

/-- What is raised by Python itself: by `encode` for a text with a lone
    surrogate and by `to_bytes` for a length that is too big. -/
structure Runtime where
  unicodeEncodeError : PyStr → PyException
  overflowError : PyException

abbrev PrintArgs := List (List PyStr)

/-- The arguments of a `print()` call, all of them strings. -/
def formatPrintArgs (args : List PyStr) : List PyStr :=
  args.map fun arg => ofChars ['\''] ++ arg ++ ofChars ['\'']

def truncatePrintArgs (printArgs : PrintArgs) : PrintArgs :=
  if printArgs.length ≤ MAX_PRINT_ARGS_ALLOWED then printArgs
  else
    printArgs.take MAX_PRINT_ARGS_ALLOWED
      ++ [[ofString "[Output truncated - "
        ++ ofChars (intText (printArgs.length - MAX_PRINT_ARGS_ALLOWED))
        ++ ofString " more print statements]"]]

def printArgsValue {X : Type} (printArgs : PrintArgs) : PyValue X :=
  .list ((truncatePrintArgs printArgs).map fun args =>
    .list (args.map .str))

def resultMessage {X : Type} (result : PyValue X) (printArgs : PrintArgs) : PyValue X :=
  .dict [(.str (ofString "result"), result),
    (.str (ofString "print_args"), printArgsValue printArgs)]

/-- `task_error_info["message"]` -/
def errorText (e : PyException) : Option PyStr :=
  match e.systemExit with
  | some code => code.map fun code => ofString "Process exited with code " ++ code
  | none => e.str

/-- The message of `_put_error`, unless its text raises. -/
def errorMessage (e : PyException) (stderr : PyStr)
    (printArgs : PrintArgs) : Option (PyValue Unit) :=
  (errorText e).map fun text =>
    .dict [(.str (ofString "error"),
        .dict [(.str (ofString "message"), .str text),
          (.str (ofString "description"), e.description), (.str (ofString "stack"), .str e.stack),
          (.str (ofString "stderr"), .str stderr)]),
      (.str (ofString "print_args"), printArgsValue printArgs)]

def bigEndian : Nat → Nat → List UInt8
  | 0, _ => []
  | length + 1, n => bigEndian length (n / 256) ++ [UInt8.ofNat (n % 256)]

/-- `n.to_bytes(length, "big")`; `none` stands for an `OverflowError`. -/
def toBytes (length n : Nat) : Option (List UInt8) :=
  if n < 256 ^ length then some (bigEndian length n) else none

/-- Why a message is not written. -/
inductive PutError (X : Type) where
  | raised (error : X)
  | unicodeEncodeError (text : PyStr)
  | overflowError

/-- The bytes of a message: `length_bytes` and `data`. -/
def frameOf {X : Type} (message : PyValue X) : Except (PutError X) (List UInt8) :=
  match dumps message with
  | .error error => .error (.raised error)
  | .ok text =>
    match encode text with
    | none => .error (.unicodeEncodeError text)
    | some data =>
      match toBytes PIPE_MSG_PREFIX_LENGTH data.length with
      | none => .error .overflowError
      | some lengthBytes => .ok (lengthBytes ++ data)

def putResult (runtime : Runtime) (result : PyValue PyException)
    (printArgs : PrintArgs) : Except PyException (List UInt8) :=
  match frameOf (resultMessage result printArgs) with
  | .ok frame => .ok frame
  | .error (.raised e) => .error e
  | .error (.unicodeEncodeError text) => .error (runtime.unicodeEncodeError text)
  | .error .overflowError => .error runtime.overflowError

/-- `_put_error`: what is written; nothing if it raises. -/
def putError (e : PyException) (stderr : PyStr) (printArgs : PrintArgs) : List UInt8 :=
  match errorMessage e stderr printArgs with
  | none => []
  | some message =>
    match frameOf message with
    | .error _ => []
    | .ok frame => frame

/-- What user code does: its `print()` calls, what it returns or raises, and
    what it writes to `sys.stderr`. -/
structure Outcome where
  prints : List (List PyStr)
  result : Except PyException (PyValue PyException)
  stderr : PyStr

def Outcome.printArgs (outcome : Outcome) : PrintArgs := outcome.prints.map formatPrintArgs

/-- The bytes the child writes. -/
def written (runtime : Runtime) (outcome : Outcome) : List UInt8 :=
  match outcome.result with
  | .error e => putError e outcome.stderr outcome.printArgs
  | .ok result =>
    match putResult runtime result outcome.printArgs with
    | .ok frame => frame
    | .error e => putError e outcome.stderr outcome.printArgs

/-! ## Reading -/

inductive ReadError where
  | eofError (message : String)
  | invalidPipeMsgLengthError (length : Nat)
  | unicodeDecodeError
  | jsonDecodeError
  | invalidPipeMsgContentError (message : String)

/-- `int.from_bytes(bytes, "big")` -/
def fromBytes (bytes : List UInt8) : Nat := bytes.foldl (fun n byte => n * 256 + byte.toNat) 0

/-- `_read_exact_bytes`: each `os.read` gets the rest of a piece or as much
    of it as is asked for, and nothing once the pipe is closed. -/
def readExactBytes : List (List UInt8) → Nat → Option (List UInt8 × List (List UInt8))
  | pieces, 0 => some ([], pieces)
  | [], _ + 1 => none
  | piece :: pieces, n + 1 =>
    if piece = [] then none
    else if piece.length ≤ n + 1 then
      (readExactBytes pieces (n + 1 - piece.length)).map
        fun (bytes, pieces) => (piece ++ bytes, pieces)
    else some (piece.take (n + 1), piece.drop (n + 1) :: pieces)

def typeName : Json → String
  | .null => "NoneType"
  | .bool _ => "bool"
  | .int _ => "int"
  | .float _ => "float"
  | .str _ => "str"
  | .list _ => "list"
  | .dict _ => "dict"

def isList : Json → Bool
  | .list _ => true
  | _ => false

def isDict : Json → Bool
  | .dict _ => true
  | _ => false

def validatePipeMessage (msg : Json) : Except ReadError Json :=
  match msg with
  | .dict entries =>
    match findKey (ofString "print_args") entries with
    | none => .error (.invalidPipeMsgContentError "Message missing 'print_args' key")
    | some printArgs =>
      if !isList printArgs then
        .error (.invalidPipeMsgContentError "'print_args' must be a list")
      else
        let result := findKey (ofString "result") entries
        let error := findKey (ofString "error") entries
        if result.isNone && error.isNone then
          .error (.invalidPipeMsgContentError "Msg is missing 'result' or 'error' key")
        else if result.isSome && error.isSome then
          .error (.invalidPipeMsgContentError "Msg has both 'result' and 'error' keys")
        else if error.any fun error => !isDict error then
          .error (.invalidPipeMsgContentError "'error' must be a dict")
        else .ok msg
  | msg => .error (.invalidPipeMsgContentError ("Expected dict, got " ++ typeName msg))

/-- `PipeReader.run`: the message, or the error. -/
def run (pieces : List (List UInt8)) : Except ReadError Json :=
  match readExactBytes pieces PIPE_MSG_PREFIX_LENGTH with
  | none => .error (.eofError "Pipe closed before reading all data")
  | some (lengthBytes, pieces) =>
    let length := fromBytes lengthBytes
    if length ≤ 0 then .error (.invalidPipeMsgLengthError length)
    else
      match readExactBytes pieces length with
      | none => .error (.eofError "Pipe closed before reading all data")
      | some (data, _) =>
        match decode data with
        | none => .error .unicodeDecodeError
        | some text =>
          match loads text with
          | none => .error .jsonDecodeError
          | some msg => validatePipeMessage msg

/-! ## The property and the condition -/

/-- What serialising a message raises: the exception of a part of it, or
    that for its text. -/
def Serialising (runtime : Runtime) (message : PyValue PyException) (e : PyException) : Prop :=
  toJson message = .error e
    ∨ ∃ t, toJson message = .ok t
      ∧ (isClean t = false ∧ e = runtime.unicodeEncodeError (write t)
        ∨ isClean t = true ∧ 2 ^ 32 ≤ utf8Length (write t) ∧ e = runtime.overflowError)

/-- The exception at hand is the one user code raised, or the one that
    serialising its result raises. -/
def Raised (runtime : Runtime) (outcome : Outcome) (e : PyException) : Prop :=
  outcome.result = .error e
    ∨ ∃ result, outcome.result = .ok result
      ∧ Serialising runtime (resultMessage result outcome.printArgs) e

/-- The message carries the result, or the error information. -/
def Carries (runtime : Runtime) (outcome : Outcome) (msg : Json) : Prop :=
  (∃ result t, outcome.result = .ok result
      ∧ toJson (resultMessage result outcome.printArgs) = .ok t
      ∧ msg = readBack t)
    ∨ ∃ e message t, Raised runtime outcome e
      ∧ errorMessage e outcome.stderr outcome.printArgs = some message
      ∧ toJson message = .ok t ∧ msg = readBack t

/-- The bytes are one frame: the length of the data, and the data. -/
def IsFrame (bytes : List UInt8) : Prop :=
  ∃ data, toBytes PIPE_MSG_PREFIX_LENGTH data.length
      = some (bytes.take PIPE_MSG_PREFIX_LENGTH)
    ∧ bytes.drop PIPE_MSG_PREFIX_LENGTH = data

/-- The pieces in which the bytes arrive. -/
def ArriveAs (bytes : List UInt8) (pieces : List (List UInt8)) : Prop :=
  pieces.flatten = bytes ∧ [] ∉ pieces

/-- One frame is written, the reader takes it however it arrives, and it
    takes no part of it for a message. -/
structure Delivers (runtime : Runtime) (outcome : Outcome) : Prop where
  frame : IsFrame (written runtime outcome)
  accepted : ∃ msg, Carries runtime outcome msg
    ∧ ∀ pieces, ArriveAs (written runtime outcome) pieces → run pieces = .ok msg
  part : ∀ bytes, bytes <+: written runtime outcome → bytes ≠ written runtime outcome →
    ∀ pieces, ArriveAs bytes pieces → ∃ error, run pieces = .error error

/-- No exception is raised at a part of the value, no string in it has a
    lone surrogate, and its text has less than `2 ^ 32` bytes. -/
def Sendable {X : Type} (message : PyValue X) : Prop :=
  ∃ t, toJson message = .ok t ∧ isClean t = true ∧ utf8Length (write t) < 2 ^ 32

/-- The condition: the result can be sent, or else what is told of the
    exception at hand. -/
def Deliverable (runtime : Runtime) (outcome : Outcome) : Prop :=
  (∃ result, outcome.result = .ok result
      ∧ Sendable (resultMessage result outcome.printArgs))
    ∨ ∃ e message, Raised runtime outcome e
      ∧ errorMessage e outcome.stderr outcome.printArgs = some message
      ∧ Sendable message

/-! ## Bytes and pieces -/

theorem length_bigEndian (length n : Nat) : (bigEndian length n).length = length := by
  induction length generalizing n with
  | zero => rfl
  | succ length ih => rw [bigEndian, List.length_append, ih, List.length_singleton]

theorem fromBytes_bigEndian {length n : Nat} (h : n < 256 ^ length) :
    fromBytes (bigEndian length n) = n := by
  induction length generalizing n with
  | zero =>
    rw [Nat.pow_zero, Nat.lt_one_iff] at h
    exact h.symm
  | succ length ih =>
    rw [Nat.pow_succ] at h
    have hquot := ih (Nat.div_lt_of_lt_mul (by rwa [Nat.mul_comm] at h))
    rw [fromBytes] at hquot
    rw [bigEndian, fromBytes, List.foldl_append, hquot]
    show n / 256 * 256 + (UInt8.ofNat (n % 256)).toNat = n
    rw [UInt8.toNat_ofNat']
    omega

theorem readExactBytes_of_le {pieces : List (List UInt8)}
    (hpieces : [] ∉ pieces) {n : Nat} (hn : n ≤ pieces.flatten.length) :
    ∃ rest, readExactBytes pieces n = some (pieces.flatten.take n, rest)
      ∧ [] ∉ rest ∧ rest.flatten = pieces.flatten.drop n := by
  induction pieces generalizing n with
  | nil =>
    obtain rfl := Nat.le_zero.mp hn
    exact ⟨[], rfl, hpieces, rfl⟩
  | cons piece pieces ih =>
    obtain ⟨hpiece, htail⟩ := not_or.mp (List.mem_cons.not.mp hpieces)
    cases n with
    | zero => exact ⟨_, by rw [readExactBytes]; rfl, hpieces, rfl⟩
    | succ n =>
      rw [List.flatten_cons, List.length_append] at hn
      rw [readExactBytes, if_neg (Ne.symm hpiece), List.flatten_cons]
      by_cases hle : piece.length ≤ n + 1
      · obtain ⟨rest, hread, hrest, hdrop⟩ :=
          ih htail (n := n + 1 - piece.length) (by omega)
        rw [if_pos hle, hread]
        refine ⟨rest, ?_, hrest, ?_⟩
        · rw [List.take_append, List.take_of_length_le hle]
          rfl
        · rw [hdrop, List.drop_append, List.drop_of_length_le hle]
          rfl
      · have hlt := Nat.lt_of_not_le hle
        rw [if_neg hle]
        refine ⟨piece.drop (n + 1) :: pieces, ?_, ?_, ?_⟩
        · rw [List.take_append_of_le_length (Nat.le_of_lt hlt)]
        · rw [List.mem_cons, not_or]
          refine ⟨fun heq => hle ?_, htail⟩
          exact List.drop_eq_nil_iff.mp heq.symm
        · rw [List.flatten_cons, List.drop_append_of_le_length (Nat.le_of_lt hlt)]

theorem readExactBytes_of_lt {pieces : List (List UInt8)} {n : Nat}
    (hn : pieces.flatten.length < n) : readExactBytes pieces n = none := by
  induction pieces generalizing n with
  | nil =>
    obtain ⟨n, rfl⟩ := Nat.exists_eq_add_one_of_ne_zero (Nat.ne_of_gt (Nat.zero_lt_of_lt hn))
    rfl
  | cons piece pieces ih =>
    obtain ⟨n, rfl⟩ := Nat.exists_eq_add_one_of_ne_zero (Nat.ne_of_gt (Nat.zero_lt_of_lt hn))
    rw [List.flatten_cons, List.length_append] at hn
    rw [readExactBytes]
    split
    · rfl
    · rw [if_pos (by omega), ih (by omega)]
      rfl

/-! ## Frames -/

section

variable {data : List UInt8} {pieces : List (List UInt8)}

def frame (data : List UInt8) : List UInt8 := bigEndian PIPE_MSG_PREFIX_LENGTH data.length ++ data

theorem length_frame (data : List UInt8) :
    (frame data).length = PIPE_MSG_PREFIX_LENGTH + data.length := by
  rw [frame, List.length_append, length_bigEndian]

section

variable (hlength : data.length < 256 ^ PIPE_MSG_PREFIX_LENGTH) (hpos : 0 < data.length)
include hlength hpos

theorem run_frame {text : PyStr} (hdecode : decode data = some text)
    {msg : Json} (hloads : loads text = some msg)
    (hpieces : ArriveAs (frame data) pieces) :
    run pieces = validatePipeMessage msg := by
  obtain ⟨hflatten, hnil⟩ := hpieces
  obtain ⟨rest, hpart, hrest, hdrop⟩ :=
    readExactBytes_of_le hnil (n := PIPE_MSG_PREFIX_LENGTH) (by
      rw [hflatten, length_frame]
      exact Nat.le_add_right ..)
  have htake : pieces.flatten.take PIPE_MSG_PREFIX_LENGTH
      = bigEndian PIPE_MSG_PREFIX_LENGTH data.length := by
    rw [hflatten, frame]
    exact List.take_left' (length_bigEndian _ _)
  have hdata : rest.flatten = data := by
    rw [hdrop, hflatten, frame]
    exact List.drop_left' (length_bigEndian _ _)
  obtain ⟨rest', hread, -, -⟩ := readExactBytes_of_le hrest (n := data.length) (by rw [hdata])
  rw [hdata, List.take_length] at hread
  rw [run, hpart, htake]
  dsimp only
  rw [fromBytes_bigEndian hlength, if_neg (Nat.not_le.mpr hpos), hread]
  dsimp only
  rw [hdecode]
  dsimp only
  rw [hloads]

/-- **PARTS**: the reader finds the end of the pipe before the end of the
    data. -/
theorem run_of_prefix {bytes : List UInt8} (hpart : bytes <+: frame data)
    (hne : bytes ≠ frame data) (hpieces : ArriveAs bytes pieces) :
    run pieces = .error (.eofError "Pipe closed before reading all data") := by
  obtain ⟨hflatten, hnil⟩ := hpieces
  have hlt : bytes.length < PIPE_MSG_PREFIX_LENGTH + data.length := by
    rw [← length_frame]
    refine Nat.lt_of_le_of_ne hpart.length_le fun heq => hne ?_
    exact hpart.eq_of_length heq
  rw [run]
  by_cases hshort : bytes.length < PIPE_MSG_PREFIX_LENGTH
  · rw [readExactBytes_of_lt (hflatten ▸ hshort)]
  · obtain ⟨rest, hread, hrest, hdrop⟩ :=
      readExactBytes_of_le hnil (n := PIPE_MSG_PREFIX_LENGTH) (by
        rw [hflatten]
        exact Nat.not_lt.mp hshort)
    have htake : pieces.flatten.take PIPE_MSG_PREFIX_LENGTH
        = bigEndian PIPE_MSG_PREFIX_LENGTH data.length := by
      rw [hflatten]
      obtain ⟨tail, htail⟩ := hpart
      have hwhole : (bytes ++ tail).take PIPE_MSG_PREFIX_LENGTH
          = bigEndian PIPE_MSG_PREFIX_LENGTH data.length := by
        rw [htail, frame]
        exact List.take_left' (length_bigEndian _ _)
      rwa [List.take_append_of_le_length (Nat.not_lt.mp hshort)] at hwhole
    rw [hread, htake]
    dsimp only
    rw [fromBytes_bigEndian hlength, if_neg (Nat.not_le.mpr hpos), readExactBytes_of_lt]
    rw [hdrop, hflatten, List.length_drop]
    omega

end

end

/-! ## Messages -/

section

variable {X : Type} {message : PyValue X} {t : Json}

theorem frameOf_cases (message : PyValue X) : (∃ error, toJson message = .error error
        ∧ frameOf message = .error (.raised error))
      ∨ ∃ t, toJson message = .ok t
        ∧ (isClean t = false
            ∧ frameOf message = .error (.unicodeEncodeError (write t))
          ∨ isClean t = true ∧ 2 ^ 32 ≤ utf8Length (write t)
            ∧ frameOf message = .error .overflowError
          ∨ isClean t = true ∧ utf8Length (write t) < 2 ^ 32
            ∧ ∃ data, encode (write t) = some data ∧ frameOf message = .ok (frame data)) := by
  rw [frameOf, dumps]
  rcases htree : toJson message with error | t
  · exact .inl ⟨error, rfl, rfl⟩
  · refine .inr ⟨t, rfl, ?_⟩
    have hsome := encode_isSome (write t)
    rw [all_write] at hsome
    rcases hclean : isClean t with _ | _
    · rw [hclean, Option.isSome_eq_false_iff, Option.isNone_iff_eq_none] at hsome
      refine .inl ⟨rfl, ?_⟩
      simp [Except.map, hsome]
    · rw [hclean] at hsome
      obtain ⟨data, hdata⟩ := Option.isSome_iff_exists.mp hsome
      have hlength := length_encode hdata
      refine .inr ?_
      by_cases hbig : 2 ^ 32 ≤ utf8Length (write t)
      · have hnone : toBytes PIPE_MSG_PREFIX_LENGTH data.length = none := by
          rw [toBytes, hlength]
          exact if_neg (Nat.not_lt.mpr hbig)
        refine .inl ⟨rfl, hbig, ?_⟩
        simp [Except.map, hdata, hnone]
      · have hbytes : toBytes PIPE_MSG_PREFIX_LENGTH data.length
            = some (bigEndian PIPE_MSG_PREFIX_LENGTH data.length) := by
          rw [toBytes, hlength]
          exact if_pos (Nat.lt_of_not_le hbig)
        refine .inr ⟨rfl, Nat.lt_of_not_le hbig, data, hdata, ?_⟩
        simp only [Except.map, hdata, hbytes]
        rfl

theorem frameOf_sendable (h : Sendable message) :
    ∃ t data, toJson message = .ok t ∧ encode (write t) = some data
      ∧ data.length < 256 ^ PIPE_MSG_PREFIX_LENGTH
      ∧ frameOf message = .ok (frame data) := by
  obtain ⟨t, htree, hclean, hlength⟩ := h
  rcases frameOf_cases message with ⟨error, hraised, -⟩
    | ⟨t', htree', ⟨hunclean, -⟩ | ⟨-, hbig, -⟩ | ⟨-, -, data, hdata, hframe⟩⟩
  · cases htree.symm.trans hraised
  · cases htree.symm.trans htree'
    rw [hclean] at hunclean
    cases hunclean
  · cases htree.symm.trans htree'
    exact absurd hlength (Nat.not_lt.mpr hbig)
  · cases htree.symm.trans htree'
    refine ⟨t, data, htree, hdata, ?_, hframe⟩
    rw [length_encode hdata]
    exact hlength

theorem sendable_of_frameOf {bytes : List UInt8}
    (h : frameOf message = .ok bytes) : Sendable message := by
  rcases frameOf_cases message with ⟨error, -, hframe⟩
    | ⟨t, htree, ⟨-, hframe⟩ | ⟨-, -, hframe⟩ | ⟨hclean, hlength, -⟩⟩
  · cases h.symm.trans hframe
  · cases h.symm.trans hframe
  · cases h.symm.trans hframe
  · exact ⟨t, htree, hclean, hlength⟩

theorem putResult_cases (runtime : Runtime) (result : PyValue PyException) (printArgs : PrintArgs) :
    (∃ bytes, putResult runtime result printArgs = .ok bytes
        ∧ frameOf (resultMessage result printArgs) = .ok bytes)
      ∨ ∃ e, putResult runtime result printArgs = .error e
        ∧ Serialising runtime (resultMessage result printArgs) e := by
  rw [putResult]
  rcases frameOf_cases (resultMessage result printArgs)
    with ⟨error, hraised, hframe⟩ | ⟨t, htree, ⟨hclean, hframe⟩
      | ⟨hclean, hbig, hframe⟩ | ⟨-, -, data, -, hframe⟩⟩
  · rw [hframe]
    exact .inr ⟨error, rfl, .inl hraised⟩
  · rw [hframe]
    exact .inr ⟨_, rfl, .inr ⟨t, htree, .inl ⟨hclean, rfl⟩⟩⟩
  · rw [hframe]
    exact .inr ⟨_, rfl, .inr ⟨t, htree, .inr ⟨hclean, hbig, rfl⟩⟩⟩
  · rw [hframe]
    exact .inl ⟨_, rfl, rfl⟩

section

variable {e : PyException} {message : PyValue PyException} {runtime : Runtime}
  (h : Serialising runtime message e)
include h

theorem not_sendable_of_serialising : ¬ Sendable message := by
  rintro ⟨t, htree, hclean, hlength⟩
  rcases h with hraised | ⟨t', htree', ⟨hunclean, -⟩ | ⟨-, hbig, -⟩⟩
  · cases htree.symm.trans hraised
  · cases htree.symm.trans htree'
    rw [hclean] at hunclean
    cases hunclean
  · cases htree.symm.trans htree'
    exact absurd hlength (Nat.not_lt.mpr hbig)

theorem Serialising.unique {e' : PyException} (h' : Serialising runtime message e') : e = e' := by
  rcases h with hraised | ⟨t, htree, h⟩
  · rcases h' with hraised' | ⟨t', htree', -⟩
    · cases hraised.symm.trans hraised'
      rfl
    · cases hraised.symm.trans htree'
  · rcases h' with hraised' | ⟨t', htree', h'⟩
    · cases htree.symm.trans hraised'
    · cases htree.symm.trans htree'
      rcases h with ⟨hclean, rfl⟩ | ⟨hclean, -, rfl⟩
      · rcases h' with ⟨-, rfl⟩ | ⟨hclean', -⟩
        · rfl
        · rw [hclean] at hclean'
          cases hclean'
      · rcases h' with ⟨hclean', -⟩ | ⟨-, -, rfl⟩
        · rw [hclean] at hclean'
          cases hclean'
        · rfl

end

/-! ### What the reader checks -/

theorem toJson_printArgs (printArgs : PrintArgs) :
    ∃ l, toJson (printArgsValue (X := X) printArgs) = .ok (.list l) := by
  have hstrings : ∀ args : List PyStr,
      toJsonElements (X := X) (args.map .str) = .ok (args.map .str) := by
    intro args
    induction args with
    | nil => rfl
    | cons arg args ih =>
      rw [List.map_cons, toJsonElements, toJson, ih]
      rfl
  have hlists : ∀ l : List (List PyStr), ∃ trees,
      toJsonElements (X := X) (l.map fun args => .list (args.map .str))
        = .ok trees := by
    intro l
    induction l with
    | nil => exact ⟨[], rfl⟩
    | cons args l ih =>
      obtain ⟨trees, htrees⟩ := ih
      rw [List.map_cons, toJsonElements, toJson, hstrings, htrees]
      exact ⟨_, rfl⟩
  obtain ⟨trees, htrees⟩ := hlists (truncatePrintArgs printArgs)
  refine ⟨trees, ?_⟩
  rw [printArgsValue, toJson, htrees]
  rfl

theorem toJson_message {key : PyStr} {value : PyValue X} {printArgs : PrintArgs}
    (h : toJson (.dict [(.str key, value),
      (.str (ofString "print_args"), printArgsValue printArgs)]) = .ok t) :
    ∃ u l, toJson value = .ok u ∧ t = .dict [(key, u), (ofString "print_args", .list l)] := by
  obtain ⟨l, hl⟩ := toJson_printArgs (X := X) printArgs
  rw [toJson, toJsonEntries, toJsonEntries, toJsonEntries, hl] at h
  rcases hvalue : toJson value with error | u
  · rw [hvalue] at h
    cases h
  · rw [hvalue] at h
    cases h
    exact ⟨u, l, rfl, rfl⟩

theorem result_ne_print_args : ofString "result" ≠ ofString "print_args" := by decide

theorem error_ne_print_args : ofString "error" ≠ ofString "print_args" := by decide

theorem result_ne_error : ofString "result" ≠ ofString "error" := by decide

theorem norm_message {key : PyStr} (hkey : key ≠ ofString "print_args") (u v : Json) :
    readBack (.dict [(key, u), (ofString "print_args", v)])
      = .dict [(key, readBack u), (ofString "print_args", readBack v)] := by
  rw [readBack, normEntries, normEntries, normEntries, dictOf, List.foldl_cons,
    List.foldl_cons, List.foldl_nil, setEntry_nil, setEntry_cons, if_neg hkey, setEntry_nil]

theorem validate_result (u : Json) (l : List Json) :
    validatePipeMessage (readBack (.dict [(ofString "result", u),
        (ofString "print_args", .list l)]))
      = .ok (readBack (.dict [(ofString "result", u), (ofString "print_args", .list l)])) := by
  rw [norm_message result_ne_print_args, readBack, validatePipeMessage]
  simp only [findKey_cons, findKey_nil, if_neg result_ne_print_args,
    if_neg result_ne_error, if_neg (Ne.symm error_ne_print_args), if_true]
  rfl

theorem validate_error (entries : List (PyStr × Json)) (l : List Json) :
    validatePipeMessage (readBack (.dict [(ofString "error", .dict entries),
        (ofString "print_args", .list l)]))
      = .ok (readBack (.dict [(ofString "error", .dict entries),
        (ofString "print_args", .list l)])) := by
  rw [norm_message error_ne_print_args, readBack, readBack, validatePipeMessage]
  simp only [findKey_cons, findKey_nil, if_neg error_ne_print_args,
    if_neg (Ne.symm result_ne_error), if_neg (Ne.symm result_ne_print_args), if_true]
  rfl

end

/-! ## What the child writes -/

section

variable {runtime : Runtime} {outcome : Outcome} {bytes : List UInt8}

theorem written_cases (runtime : Runtime) (outcome : Outcome) :
    (∃ result, outcome.result = .ok result
        ∧ frameOf (resultMessage result outcome.printArgs) = .ok (written runtime outcome))
      ∨ ∃ e, Raised runtime outcome e
        ∧ written runtime outcome = putError e outcome.stderr outcome.printArgs := by
  rw [written]
  rcases hresult : outcome.result with e | result
  · exact .inr ⟨e, .inl hresult, rfl⟩
  · rcases putResult_cases runtime result outcome.printArgs
      with ⟨bytes, hput, hframe⟩ | ⟨e, hput, hraised⟩
    · refine .inl ⟨result, rfl, ?_⟩
      simp only [hput]
      exact hframe
    · refine .inr ⟨e, .inr ⟨result, hresult, hraised⟩, ?_⟩
      simp [hput]

theorem Raised.unique {e e' : PyException}
    (h : Raised runtime outcome e) (h' : Raised runtime outcome e') :
    e = e' := by
  rcases h with h | ⟨result, h, hraised⟩
  · rcases h' with h' | ⟨result', h', -⟩
    · cases h.symm.trans h'
      rfl
    · cases h.symm.trans h'
  · rcases h' with h' | ⟨result', h', hraised'⟩
    · cases h.symm.trans h'
    · cases h.symm.trans h'
      exact hraised.unique hraised'

theorem putError_cases (e : PyException) (stderr : PyStr) (printArgs : PrintArgs) :
    putError e stderr printArgs = []
      ∨ ∃ message, errorMessage e stderr printArgs = some message
        ∧ frameOf message = .ok (putError e stderr printArgs) := by
  rw [putError]
  rcases herror : errorMessage e stderr printArgs with _ | message
  · exact .inl rfl
  · dsimp only
    rcases hframe : frameOf message with _ | frame
    · exact .inl rfl
    · exact .inr ⟨message, rfl, hframe⟩

theorem length_pos_encode {t : Json} {data : List UInt8}
    (h : encode (write t) = some data) : 0 < data.length := by
  obtain ⟨c, rest, hwrite, -⟩ := starts_write t
  rw [length_encode h, hwrite, utf8Length, List.map_cons, List.sum_cons]
  exact Nat.add_pos_left (Char.utf8Size_pos c) _

theorem delivers_of_frame {X : Type} {message : PyValue X} (hsendable : Sendable message)
    (hframe : frameOf message = .ok (written runtime outcome))
    (hvalid : ∀ t, toJson message = .ok t → validatePipeMessage (readBack t) = .ok (readBack t))
    (hcarries : ∀ t, toJson message = .ok t →
      Carries runtime outcome (readBack t)) : Delivers runtime outcome := by
  obtain ⟨t, data, htree, hdata, hlength, hwritten⟩ := frameOf_sendable hsendable
  have hpos := length_pos_encode hdata
  rw [hframe] at hwritten
  have hwritten : written runtime outcome = frame data := Except.ok.inj hwritten
  refine ⟨?_, ⟨readBack t, hcarries t htree, fun pieces hpieces => ?_⟩,
    fun bytes hpart hne pieces hpieces => ?_⟩
  · have hdrop : (frame data).drop PIPE_MSG_PREFIX_LENGTH = data :=
      List.drop_left' (length_bigEndian _ _)
    have htake : (frame data).take PIPE_MSG_PREFIX_LENGTH
        = bigEndian PIPE_MSG_PREFIX_LENGTH data.length :=
      List.take_left' (length_bigEndian _ _)
    refine ⟨data, ?_, hwritten ▸ hdrop⟩
    rw [hwritten, htake, toBytes, if_pos hlength]
  · rw [hwritten] at hpieces
    rw [run_frame hlength hpos (decode_encode hdata) (loads_write t) hpieces]
    exact hvalid t htree
  · rw [hwritten] at hpart hne
    exact ⟨_, run_of_prefix hlength hpos hpart hne hpieces⟩

theorem delivers_result {result : PyValue PyException} (hresult : outcome.result = .ok result)
    (hframe : frameOf (resultMessage result outcome.printArgs)
      = .ok (written runtime outcome)) : Delivers runtime outcome := by
  refine delivers_of_frame (sendable_of_frameOf hframe) hframe
    (fun t ht => ?_) fun t ht => .inl ⟨result, t, hresult, ht, rfl⟩
  obtain ⟨u, l, -, rfl⟩ := toJson_message ht
  exact validate_result u l

theorem delivers_error {e : PyException} {message : PyValue Unit}
    (hraised : Raised runtime outcome e)
    (hmessage : errorMessage e outcome.stderr outcome.printArgs
      = some message) (hframe : frameOf message = .ok (written runtime outcome)) :
    Delivers runtime outcome := by
  refine delivers_of_frame (sendable_of_frameOf hframe) hframe
    (fun t ht => ?_) fun t ht => .inr ⟨e, message, t, hraised, hmessage, ht,
      rfl⟩
  obtain ⟨text, -, rfl⟩ := Option.map_eq_some_iff.mp hmessage
  obtain ⟨u, l, hu, rfl⟩ := toJson_message ht
  rw [toJson] at hu
  rcases hentries : toJsonEntries _ with error | entries
  · rw [hentries] at hu
    cases hu
  · rw [hentries] at hu
    cases hu
    exact validate_error entries l

theorem Delivers.written_ne_nil (h : Delivers runtime outcome) : written runtime outcome ≠ [] := by
  intro hnothing
  obtain ⟨data, hbytes, hdata⟩ := h.frame
  rw [hnothing] at hbytes hdata
  rw [← hdata] at hbytes
  cases hbytes

/-- **ONE MESSAGE**: exactly when the result, or what is told of the
    exception at hand, can be sent. -/
theorem delivers_iff (runtime : Runtime) (outcome : Outcome) :
    Delivers runtime outcome ↔ Deliverable runtime outcome := by
  constructor
  · intro hdelivers
    rcases written_cases runtime outcome with ⟨result, hresult, hframe⟩ | ⟨e, hraised, hwritten⟩
    · exact .inl ⟨result, hresult, sendable_of_frameOf hframe⟩
    · rcases putError_cases e outcome.stderr outcome.printArgs
        with hnothing | ⟨message, hmessage, hframe⟩
      · exact absurd (hwritten.trans hnothing) hdelivers.written_ne_nil
      · exact .inr ⟨e, message, hraised, hmessage, sendable_of_frameOf hframe⟩
  · intro hdeliverable
    rcases written_cases runtime outcome with ⟨result, hresult, hframe⟩ | ⟨e, hraised, hwritten⟩
    · exact delivers_result hresult hframe
    · rcases hdeliverable with ⟨result, hresult, hsendable⟩
        | ⟨e', message, hraised', hmessage, hsendable⟩
      · rcases hraised with herror | ⟨result', hresult', hserialising⟩
        · cases hresult.symm.trans herror
        · cases hresult.symm.trans hresult'
          exact absurd hsendable (not_sendable_of_serialising hserialising)
      · obtain rfl := hraised.unique hraised'
        obtain ⟨t, data, -, -, -, hframe⟩ := frameOf_sendable hsendable
        refine delivers_error hraised hmessage ?_
        rw [hwritten, putError, hmessage]
        simp [hframe]

end

/-! ## A lone surrogate -/

def exception (text : String) : PyException :=
  { systemExit := none
    str := some (ofString text)
    description := .str []
    stack := ofString text }

def python : Runtime :=
  { unicodeEncodeError := fun _ => exception "surrogates not allowed"
    overflowError := exception "int too big to convert" }

/-- A task that prints a lone surrogate and returns no items. -/
def printsSurrogate : Outcome :=
  { prints := [[[.surrogate ⟨0, Nat.succ_pos _⟩]]]
    result := .ok (.list [])
    stderr := [] }

/-- Nothing is written: the arguments of `print()` are in both messages. -/
theorem not_delivers_surrogate :
    written python printsSurrogate = [] ∧ ¬ Delivers python printsSurrogate := by
  have hnothing : written python printsSurrogate = [] := by decide +kernel
  exact ⟨hnothing, fun hdelivers => hdelivers.written_ne_nil hnothing⟩

end N8nPipeMessage
