import N8n.JsValuesProofs

/-! # Filter parameters — what validation reports and execution throws

    A filter condition compares two operands after converting them to the
    types of its operator.  The conversion hands its failure back as a value
    (`parseFilterConditionValues`).  Executing a condition throws that value;
    validating the filter waits for it to be thrown, and so never sees it
    (`validateFilterParameter_eq`).

    The two agree on the conditions whose operands convert, and on no others
    (`reports_iff_throws_iff`). -/

namespace N8nFilterParameter

open N8nJsonText N8nJsValues N8nOrderedMap

/-! ## Conditions -/

inductive FilterOperatorType where
  | string
  | number
  | boolean
  | array
  | object
  | dateTime
  | any
deriving DecidableEq

def FilterOperatorType.text : FilterOperatorType → JsString
  | .string => ofString "string"
  | .number => ofString "number"
  | .boolean => ofString "boolean"
  | .array => ofString "array"
  | .object => ofString "object"
  | .dateTime => ofString "dateTime"
  | .any => ofString "any"

structure FilterOperatorValue where
  type : FilterOperatorType
  operation : String
  rightType : Option FilterOperatorType
  singleValue : Bool

structure FilterConditionValue (F : Type) where
  leftValue : Value F
  operator : FilterOperatorValue
  rightValue : Value F

inductive TypeValidation where
  | strict
  | loose
deriving DecidableEq

structure FilterOptionsValue where
  caseSensitive : Bool
  typeValidation : TypeValidation
  version : Option Nat

structure FilterValue (F : Type) where
  options : FilterOptionsValue
  conditions : List (FilterConditionValue F)

inductive ErrorFormat where
  | full
  | inline
deriving DecidableEq

structure FilterConditionMetadata where
  index : Option Nat
  unresolvedExpressions : Bool
  itemIndex : Option Nat
  errorFormat : Option ErrorFormat

structure FilterError where
  message : JsString
  description : JsString

inductive Thrown where
  | filterError (error : FilterError)
  | typeError
  | syntaxError

/-- What the conversions and comparisons are given: the numbers, the texts
    of the runtime, and the dates of the date library. -/
structure Platform (F D : Type) where
  numbers : Numbers F
  trim : JsString → JsString
  toLowerCase : JsString → JsString
  toLocaleLowerCase : JsString → JsString
  /-- `JSON.stringify`. -/
  stringify : Value F → JsString
  /-- `JSON.parse`. -/
  parse : JsString → Option (Value F)
  /-- `jsonParse` that also reads object literals. -/
  parseObject : JsString → Option (Value F)
  /-- The date in a text in one of the formats that are tried. -/
  parseDate : JsString → Option D
  toMillis : D → Number F
  dateText : D → JsString
  /-- `new RegExp(pattern, flags).test`. -/
  regex : JsString → JsString → Option (JsString → Bool)
  /-- The pattern and the flags of a text between slashes. -/
  matchSlashes : JsString → Option (JsString × JsString)

/-- A value after its conversion. -/
inductive Parsed (F D : Type) where
  | value (v : Value F)
  | date (d : D)

inductive ValidationResult (F D : Type) where
  | valid (newValue : Parsed F D)
  | invalid (errorMessage : JsString)

variable {F D : Type}

def ValidationResult.isValid : ValidationResult F D → Bool
  | .valid _ => true
  | .invalid _ => false

/-- `parsed.valid ? parsed.newValue : undefined`. -/
def ValidationResult.newValue : ValidationResult F D → Parsed F D
  | .valid newValue => newValue
  | .invalid _ => .value .undefined

section

variable [LinearOrder F] (p : Platform F D)

/-! ## Converting one operand -/

def tryToParseNumber (value : Value F) : Option (Number F) :=
  match toNumber p.numbers value with
  | some (.real x) => some (.real x)
  | _ => none

def tryToParseString (value : Value F) : Option JsString :=
  match typeOf value with
  | .object => some (p.stringify value)
  | .undefined => some []
  | _ => toText p.numbers value

/-- The last lines of `tryToParseBoolean`. -/
def numberToBoolean (value : Value F) : Option Bool :=
  match toNumber p.numbers value with
  | none => none
  | some n =>
    if n = .real (p.numbers.ofNat 0) then some false
    else if n = .real (p.numbers.ofNat 1) then some true
    else none

def tryToParseBoolean (value : Value F) : Option Bool :=
  match value with
  | .bool b => some b
  | .string s =>
    if p.toLowerCase s = ofString "true" then some true
    else if p.toLowerCase s = ofString "false" then some false
    else if p.trim s = [] then none
    else numberToBoolean p value
  | value => numberToBoolean p value

def tryToParseDateTime (value : Value F) : Option D :=
  (toText p.numbers value).bind fun text => p.parseDate (p.trim text)

/-- `text.replace(/'/g, '"')`. -/
def doubleQuotes (text : JsString) : JsString := text.map fun u => if u = 39 then 34 else u

def tryToParseArray (value : Value F) : Option (Value F) :=
  match value with
  | .array elements => some (.array elements)
  | value =>
    (toText p.numbers value).bind fun text =>
      match (p.parse text).orElse (fun _ => p.parse (doubleQuotes text)) with
      | some (.array elements) => some (.array elements)
      | _ => none

def tryToParseObject (value : Value F) : Option (Value F) :=
  match value with
  | .object members => some (.object members)
  | value =>
    (toText p.numbers value).bind fun text =>
      match p.parseObject text with
      | some (.object members) => some (.object members)
      | some .null => some .null
      | _ => none

/-- A value between single quotes, or the name of its kind. -/
def getValueDescription (value : Value F) : JsString :=
  match value with
  | .null => ofString "'null'"
  | .array _ => ofString "array"
  | .object _ => ofString "object"
  | value => ofString "'" ++ (toText p.numbers value).getD [] ++ ofString "'"

/-- The page that the message about a date points to. -/
def luxonDocsURL : JsString :=
  ofString ("https://moment.github.io/luxon/api-docs/index.html" ++ "#datetimefromformat")

/-- Valid with what was parsed, or invalid with the message. -/
def parsedOr (parsed : Option (Parsed F D)) (errorMessage : JsString) : ValidationResult F D :=
  match parsed with
  | some newValue => .valid newValue
  | none => .invalid errorMessage

/-- The switch of `validateFieldType`, for the types of a filter
    operator. -/
def validateFieldType (fieldName : JsString) (value : Value F)
    (type : FilterOperatorType) (strict parseStrings : Bool) :
    ValidationResult F D :=
  let defaultErrorMessage :=
    ofString "'" ++ fieldName ++ ofString "' expects a " ++ type.text
      ++ ofString " but we got " ++ getValueDescription p value
  if value matches .null | .undefined then .valid (.value .undefined)
  else
    match type with
    | .string =>
      if !parseStrings then .valid (.value value)
      else if strict && typeOf value ≠ .string then
        .invalid defaultErrorMessage
      else
        parsedOr ((tryToParseString p value).map fun s => .value (.string s)) defaultErrorMessage
    | .number =>
      if strict && typeOf value ≠ .number then .invalid defaultErrorMessage
      else
        parsedOr ((tryToParseNumber p value).map fun n => .value (.number n)) defaultErrorMessage
    | .boolean =>
      if strict && typeOf value ≠ .boolean then .invalid defaultErrorMessage
      else
        parsedOr ((tryToParseBoolean p value).map fun b => .value (.bool b)) defaultErrorMessage
    | .dateTime =>
      parsedOr ((tryToParseDateTime p value).map .date)
        (defaultErrorMessage
          ++ ofString " <br/><br/> Consider using <a href=\""
          ++ luxonDocsURL
          ++ ofString "\" target=\"_blank\"><code>DateTime.fromFormat</code>"
          ++ ofString "</a> to work with custom date formats.")
    | .object =>
      if strict && !(value matches .object _ | .array _) then
        .invalid defaultErrorMessage
      else
        parsedOr ((tryToParseObject p value).map .value) defaultErrorMessage
    | .array =>
      if strict && !(value matches .array _) then
        .invalid defaultErrorMessage
      else
        parsedOr ((tryToParseArray p value).map .value) defaultErrorMessage
    | .any => .valid (.value value)

def isEmptyOperand (value : Value F) : Bool :=
  match value with
  | .string s => (p.trim s).isEmpty
  | .array elements => elements.isEmpty
  | _ => false

def parseSingleFilterValue (value : Value F) (type : FilterOperatorType)
    (strict : Bool) (version : Nat) : ValidationResult F D :=
  if type = .any || (value matches .null | .undefined) then
    .valid (.value value)
  else if type = .boolean && !strict then
    let truth : ValidationResult F D := .valid (.value (.bool (truthy p.numbers value)))
    if 2 ≤ version then
      match validateFieldType p (ofString "filter") value type false false with
      | .valid newValue => .valid newValue
      | .invalid _ => truth
    else truth
  else if type = .number && (value matches .number .nan) then
    .valid (.value value)
  else if type = .number && isEmptyOperand p value && 3 ≤ version then
    -- an empty operand is no zero
    .valid (.value .null)
  else validateFieldType p (ofString "filter") value type strict true

/-! ## The texts of an error -/

def withIndefiniteArticle (noun : JsString) : JsString :=
  let article :=
    match noun.head? with
    | none => ofString "an"
    | some c => if (ofString "aeiou").contains c then ofString "an" else ofString "a"
  article ++ ofString " " ++ noun

def composeInvalidTypeMessage (strict : Bool) (suffix type fromType : JsString)
    (value : JsString) : JsString :=
  let fromType := p.toLocaleLowerCase fromType
  if strict then
    ofString "Wrong type: '" ++ value ++ ofString "' is "
      ++ withIndefiniteArticle fromType ++ ofString " but was expecting "
      ++ withIndefiniteArticle type ++ ofString " " ++ suffix
  else
    ofString "Conversion error: the " ++ fromType ++ ofString " '" ++ value
      ++ ofString "' can't be converted to " ++ withIndefiniteArticle type
      ++ ofString " " ++ suffix

def getTypeDescription (isStrict : Bool) : JsString :=
  if isStrict then
    ofString ("Try changing the type of comparison. Alternatively you can "
      ++ "enable 'Convert types where required'.")
  else ofString "Try changing the type of the comparison."

/-- The function an operand can be converted with. -/
def conversionFunction : FilterOperatorType → Option JsString
  | .string => some (ofString ".toString()")
  | .number => some (ofString ".toNumber()")
  | .boolean => some (ofString ".toBoolean()")
  | _ => none

def composeInvalidTypeDescription (strict : Bool) (type : FilterOperatorType)
    (valuePosition : JsString) : JsString :=
  match strict, conversionFunction type with
  | true, some convertionFunction =>
    ofString "\n<p>Try either:</p>\n<ol>\n  <li>Enabling "
      ++ ofString "'Convert types where required'</li>\n  <li>"
      ++ ofString "Converting the "
      ++ valuePosition ++ ofString " field to "
      ++ withIndefiniteArticle type.text ++ ofString " by adding <code>"
      ++ convertionFunction ++ ofString "</code></li>\n</ol>\n\t\t\t"
  | _, _ => getTypeDescription strict

/-! ## Converting both operands -/

def stringOf (value : Value F) : Except Thrown JsString :=
  match toText p.numbers value with
  | some text => .ok text
  | none => .error .typeError

/-- The text of an expression that is still to be resolved. -/
def isExpression : Value F → Bool
  | .string s => s.head? = some 61
  | _ => false

def parseFilterConditionValues (condition : FilterConditionValue F)
    (options : FilterOptionsValue) (metadata : FilterConditionMetadata) :
    Except Thrown (Except FilterError (Parsed F D × Parsed F D)) := do
  let index := metadata.index.getD 0
  let itemIndex := metadata.itemIndex.getD 0
  let errorFormat := metadata.errorFormat.getD .full
  let strict := options.typeValidation = .strict
  let version := options.version.getD 1
  let operator := condition.operator
  let rightType := operator.rightType.getD operator.type
  let parsedLeftValue := parseSingleFilterValue p condition.leftValue operator.type strict version
  let parsedRightValue := parseSingleFilterValue p condition.rightValue rightType strict version
  let leftValid := parsedLeftValue.isValid
    || (metadata.unresolvedExpressions && isExpression condition.leftValue)
  let rightValid := parsedRightValue.isValid || operator.singleValue
    || (metadata.unresolvedExpressions && isExpression condition.rightValue)
  let leftValueString ← stringOf p condition.leftValue
  let rightValueString ← stringOf p condition.rightValue
  let suffix :=
    if errorFormat = .full then
      ofString ("[condition " ++ toString index ++ ", item " ++ toString itemIndex ++ "]")
    else ofString ("[item " ++ toString itemIndex ++ "]")
  let outcome : Except FilterError (Parsed F D × Parsed F D) :=
    if !leftValid && !rightValid && typeOf condition.leftValue = typeOf condition.rightValue then
      .error
        { message := ofString "Comparison type expects "
            ++ withIndefiniteArticle operator.type.text
            ++ ofString " but both fields are "
            ++ withIndefiniteArticle (typeOf condition.leftValue).text
          description := getTypeDescription strict }
    else if !leftValid then
      .error
        { message := composeInvalidTypeMessage p strict suffix
            operator.type.text (typeOf condition.leftValue).text
            leftValueString
          description := composeInvalidTypeDescription strict operator.type
            (ofString "first") }
    else if !rightValid then
      .error
        { message := composeInvalidTypeMessage p strict suffix rightType.text
            (typeOf condition.rightValue).text rightValueString
          description := composeInvalidTypeDescription strict rightType
            (ofString "second") }
    else .ok (parsedLeftValue.newValue, parsedRightValue.newValue)
  return outcome

/-! ## Execution -/

/-- The truth of a converted value. -/
def Parsed.truthy : Parsed F D → Bool
  | .value v => N8nJsValues.truthy p.numbers v
  | .date _ => true

/-- The value an operator of numbers works on. -/
def Parsed.primitive : Parsed F D → Value F
  | .value v => v
  | .date d => .number (p.toMillis d)

/-- The operator `===`. -/
def same : Parsed F D → Parsed F D → Bool
  | .value v, .value w => strictEquals v w
  | _, _ => false

/-- A result, where a conversion may throw. -/
def orTypeError {α : Type} : Option α → Except Thrown α
  | some a => .ok a
  | none => .error .typeError

/-- `String(value)` of a converted value. -/
def textOf : Parsed F D → Except Thrown JsString
  | .value v => stringOf p v
  | .date d => .ok (p.dateText d)

/-- `new RegExp(pattern, flags)`. -/
def newRegExp (pattern flags : JsString) : Except Thrown (JsString → Bool) :=
  match p.regex pattern flags with
  | some test => .ok test
  | none => .error .syntaxError

/-- What is no text has no `match`; an empty operand is the empty pattern. -/
def parseRegexPattern (pattern : Parsed F D) : Except Thrown (JsString → Bool) :=
  match pattern with
  | .value (.string s) =>
    match p.matchSlashes s with
    | none => newRegExp p s []
    | some (pattern, flags) => newRegExp p pattern flags
  | pattern => if pattern.truthy p then .error .typeError else newRegExp p [] []

def arrayContainsValue (array : List (Value F)) (value : Parsed F D) (ignoreCase : Bool) : Bool :=
  match value with
  | .date _ => false
  | .value (.string s) =>
    if ignoreCase then
      array.any fun item =>
        match item with
        | .string t => p.toLocaleLowerCase t = p.toLocaleLowerCase s
        | _ => false
    else array.any fun item => sameValueZero item (.string s)
  | .value value => array.any fun item => sameValueZero item value

/-- A text with its letters in lower case; other values stay. -/
def lowerCase : Parsed F D → Parsed F D
  | .value (.string s) => .value (.string (p.toLocaleLowerCase s))
  | value => value

def endsWith (text suffix : JsString) : Bool := suffix.isSuffixOf text

def startsWith (text beginning : JsString) : Bool := beginning.isPrefixOf text

def includes (text part : JsString) : Bool := text.tails.any fun rest => part.isPrefixOf rest

/-- No case of the switch has the operation: a warning and `false`. -/
def unknownOperator : Except Thrown Bool := .ok false

def executeString (operation : String) (ignoreCase : Bool)
    (leftValue rightValue : Parsed F D) : Except Thrown Bool := do
  let leftValue := if ignoreCase then lowerCase p leftValue else leftValue
  let rightValue :=
    if ignoreCase && operation ≠ "regex" && operation ≠ "notRegex" then
      lowerCase p rightValue
    else rightValue
  -- the left operand was converted to a text, or is nothing
  let left : JsString :=
    match leftValue with
    | .value (.string s) => s
    | _ => []
  let right : Parsed F D :=
    match rightValue with
    | .value .null => .value (.string [])
    | .value .undefined => .value (.string [])
    | rightValue => rightValue
  match operation with
  | "empty" => return left.isEmpty
  | "notEmpty" => return !left.isEmpty
  | "equals" => return same (.value (.string left)) right
  | "notEquals" => return !same (.value (.string left)) right
  | "contains" => return includes left (← textOf p right)
  | "notContains" => return !includes left (← textOf p right)
  | "startsWith" => return startsWith left (← textOf p right)
  | "notStartsWith" => return !startsWith left (← textOf p right)
  | "endsWith" => return endsWith left (← textOf p right)
  | "notEndsWith" => return !endsWith left (← textOf p right)
  | "regex" => return (← parseRegexPattern p right) left
  | "notRegex" => return !(← parseRegexPattern p right) left
  | _ => unknownOperator

/-- `Object.keys(left).length`. -/
def keyCount : Parsed F D → Option Nat
  | .value (.object members) => some members.length
  | .value (.array elements) => some elements.length
  | .value (.string s) => some s.length
  | .value _ => some 0
  | .date _ => none

def executeObject (operation : String) (leftValue : Parsed F D) : Except Thrown Bool :=
  match operation with
  | "empty" => .ok (!leftValue.truthy p || keyCount leftValue = some 0)
  | "notEmpty" => .ok (leftValue.truthy p && keyCount leftValue ≠ some 0)
  | _ => unknownOperator

/-- `left.length`, where the left operand is an array or has no length. -/
def lengthOf : Parsed F D → Value F
  | .value (.array elements) => .number (.real (p.numbers.ofNat elements.length))
  | .value .null => .number (.real (p.numbers.ofNat 0))
  | .value .undefined => .number (.real (p.numbers.ofNat 0))
  | _ => .undefined

/-- The elements of the left operand; nothing else has the methods of an
    array. -/
def elementsOf : Parsed F D → Except Thrown (List (Value F))
  | .value (.array elements) => .ok elements
  | .value .null => .ok []
  | .value .undefined => .ok []
  | _ => .error .typeError

def executeArray (operation : String) (ignoreCase : Bool)
    (leftValue rightValue : Parsed F D) : Except Thrown Bool := do
  let length := lengthOf p leftValue
  let right := rightValue.primitive p
  match operation with
  | "contains" =>
    let left ← elementsOf leftValue
    return arrayContainsValue p left rightValue ignoreCase
  | "notContains" =>
    let left ← elementsOf leftValue
    return !arrayContainsValue p left rightValue ignoreCase
  | "lengthEquals" => return same (D := D) (.value length) rightValue
  | "lengthNotEquals" => return !same (D := D) (.value length) rightValue
  | "lengthGt" => orTypeError (greaterThan p.numbers length right)
  | "lengthLt" => orTypeError (lessThan p.numbers length right)
  | "lengthGte" => orTypeError (atLeast p.numbers length right)
  | "lengthLte" => orTypeError (atMost p.numbers length right)
  | "empty" => return sameValueZero length (.number (.real (p.numbers.ofNat 0)))
  | "notEmpty" => return !sameValueZero length (.number (.real (p.numbers.ofNat 0)))
  | _ => executeObject p operation leftValue

def existsValue : Parsed F D → Bool
  | .value .undefined => false
  | .value .null => false
  | .value (.number .nan) => false
  | _ => true

def executeBoolean (operation : String) (ignoreCase : Bool)
    (leftValue rightValue : Parsed F D) : Except Thrown Bool :=
  match operation with
  | "empty" => .ok (!existsValue leftValue)
  | "notEmpty" => .ok (existsValue leftValue)
  | "true" => .ok (leftValue.truthy p)
  | "false" => .ok (!leftValue.truthy p)
  | "equals" => .ok (same leftValue rightValue)
  | "notEquals" => .ok (!same leftValue rightValue)
  | _ => executeArray p operation ignoreCase leftValue rightValue

/-- `value.toMillis()`. -/
def millisOf : Parsed F D → Except Thrown (Value F)
  | .date d => .ok (.number (p.toMillis d))
  | .value _ => .error .typeError

def executeDateTime (operation : String) (ignoreCase : Bool)
    (leftValue rightValue : Parsed F D) : Except Thrown Bool :=
  let compare (operator : Value F → Value F → Option Bool) :
      Except Thrown Bool := do
    let left ← millisOf p leftValue
    let right ← millisOf p rightValue
    orTypeError (operator left right)
  match operation with
  | "empty" => .ok (!existsValue leftValue)
  | "notEmpty" => .ok (existsValue leftValue)
  | _ =>
    if !leftValue.truthy p || !rightValue.truthy p then .ok false
    else
      match operation with
      | "equals" => compare fun left right => some (strictEquals left right)
      | "notEquals" => compare fun left right => some (!strictEquals left right)
      | "after" => compare (greaterThan p.numbers)
      | "before" => compare (lessThan p.numbers)
      | "afterOrEquals" => compare (atLeast p.numbers)
      | "beforeOrEquals" => compare (atMost p.numbers)
      | _ => executeBoolean p operation ignoreCase leftValue rightValue

def executeNumber (operation : String) (ignoreCase : Bool)
    (leftValue rightValue : Parsed F D) : Except Thrown Bool :=
  let left := leftValue.primitive p
  let right := rightValue.primitive p
  match operation with
  | "empty" => .ok (!existsValue leftValue)
  | "notEmpty" => .ok (existsValue leftValue)
  | "equals" => .ok (same leftValue rightValue)
  | "notEquals" => .ok (!same leftValue rightValue)
  | "gt" => orTypeError (greaterThan p.numbers left right)
  | "lt" => orTypeError (lessThan p.numbers left right)
  | "gte" => orTypeError (atLeast p.numbers left right)
  | "lte" => orTypeError (atMost p.numbers left right)
  | _ => executeDateTime p operation ignoreCase leftValue rightValue

/-- What is done with the converted operands.  A case of the switch that
    does not know the operation runs into the next one, except after the
    texts. -/
def executeOperation (operator : FilterOperatorValue) (ignoreCase : Bool)
    (leftValue rightValue : Parsed F D) : Except Thrown Bool :=
  let exist := existsValue leftValue
  if operator.operation = "exists" then .ok exist
  else if operator.operation = "notExists" then .ok !exist
  else
    match operator.type with
    | .string => executeString p operator.operation ignoreCase leftValue rightValue
    | .number => executeNumber p operator.operation ignoreCase leftValue rightValue
    | .dateTime => executeDateTime p operator.operation ignoreCase leftValue rightValue
    | .boolean => executeBoolean p operator.operation ignoreCase leftValue rightValue
    | .array => executeArray p operator.operation ignoreCase leftValue rightValue
    | .object => executeObject p operator.operation leftValue
    | .any => unknownOperator

/-- The truth of what is returned. -/
def executeFilterCondition (condition : FilterConditionValue F)
    (filterOptions : FilterOptionsValue) (metadata : FilterConditionMetadata) :
    Except Thrown Bool := do
  let ignoreCase := !filterOptions.caseSensitive
  let operator := condition.operator
  match ← parseFilterConditionValues p condition filterOptions metadata with
  | .error error => .error (.filterError error)
  | .ok (leftValue, rightValue) =>
    executeOperation p operator ignoreCase leftValue rightValue

/-! ## Validation -/

/-- The issues by the name of the parameter and the index of the
    condition. -/
abbrev Issues := OrderedMap JsString (List JsString)

/-- `issues[key].push(error.message)`. -/
def pushIssue (issues : Issues) (key : JsString) (error : FilterError) : Except Thrown Issues :=
  match issues.get? key with
  | none => .error .typeError
  | some messages => .ok (issues.set key (messages ++ [error.message]))

def issueKey (name : JsString) (index : Nat) : JsString :=
  name ++ ofString "." ++ ofString (toString index)

/-- The body of the reduction: what is thrown is caught, and what is
    returned is dropped. -/
def validateCondition (name : JsString) (options : FilterOptionsValue)
    (issues : Issues) (entry : FilterConditionValue F × Nat) :
    Except Thrown Issues :=
  match parseFilterConditionValues p entry.1 options
      { index := some entry.2, unresolvedExpressions := true
        itemIndex := none, errorFormat := some .inline } with
  | .ok _ => .ok issues
  | .error (.filterError error) => pushIssue issues (issueKey name entry.2) error
  | .error _ => .ok issues

def validateFilterParameter (name : JsString) (value : FilterValue F) : Except Thrown Issues :=
  value.conditions.zipIdx.foldlM (validateCondition p name value.options) .empty

/-! ## What execution throws -/

def NoFilterError {α : Type} (x : Except Thrown α) : Prop :=
  ∀ error, x ≠ .error (.filterError error)

variable {α : Type}

theorem noFilterError_ok (a : α) : NoFilterError (.ok a : Except Thrown α) := by
  intro error h
  cases h

theorem noFilterError_typeError : NoFilterError (.error .typeError : Except Thrown α) := by
  intro error h
  cases h

theorem NoFilterError.bind {β : Type} {x : Except Thrown α}
    {f : α → Except Thrown β} (hx : NoFilterError x)
    (hf : ∀ a, NoFilterError (f a)) : NoFilterError (x >>= f) := by
  cases x with
  | ok a => exact hf a
  | error thrown =>
    intro error h
    cases h
    exact hx error rfl

theorem orTypeError_noFilterError (x : Option α) : NoFilterError (orTypeError x) := by
  cases x with
  | none => exact noFilterError_typeError
  | some a => exact noFilterError_ok a

omit [LinearOrder F] in
theorem stringOf_noFilterError (v : Value F) : NoFilterError (stringOf p v) := by
  rw [stringOf]
  split
  · exact noFilterError_ok _
  · exact noFilterError_typeError

omit [LinearOrder F] in
theorem textOf_noFilterError (v : Parsed F D) : NoFilterError (textOf p v) := by
  cases v with
  | value v => exact stringOf_noFilterError p v
  | date d => exact noFilterError_ok _

omit [LinearOrder F] in
theorem newRegExp_noFilterError (pattern flags : JsString) :
    NoFilterError (newRegExp p pattern flags) := by
  rw [newRegExp]
  split
  · exact noFilterError_ok _
  · intro error h
    cases h

theorem parseRegexPattern_noFilterError (pattern : Parsed F D) :
    NoFilterError (parseRegexPattern p pattern) := by
  rw [parseRegexPattern.eq_def]
  split
  · split
    · exact newRegExp_noFilterError p _ _
    · exact newRegExp_noFilterError p _ _
  · split
    · exact noFilterError_typeError
    · exact newRegExp_noFilterError p _ _

omit [LinearOrder F] in
theorem elementsOf_noFilterError (v : Parsed F D) : NoFilterError (elementsOf v) := by
  rw [elementsOf.eq_def]
  split
  · exact noFilterError_ok _
  · exact noFilterError_ok _
  · exact noFilterError_ok _
  · exact noFilterError_typeError

omit [LinearOrder F] in
theorem millisOf_noFilterError (v : Parsed F D) : NoFilterError (millisOf p v) := by
  cases v with
  | value v => exact noFilterError_typeError
  | date d => exact noFilterError_ok _

theorem executeString_noFilterError (operation : String) (ignoreCase : Bool)
    (left right : Parsed F D) :
    NoFilterError (executeString p operation ignoreCase left right) := by
  rw [executeString.eq_def]
  extract_lets
  split
  all_goals first
    | exact noFilterError_ok _
    | exact (textOf_noFilterError p _).bind fun _ => noFilterError_ok _
    | exact (parseRegexPattern_noFilterError p _).bind fun _ => noFilterError_ok _

theorem executeObject_noFilterError (operation : String)
    (left : Parsed F D) : NoFilterError (executeObject p operation left) := by
  rw [executeObject.eq_def]
  split
  all_goals exact noFilterError_ok _

section

variable (operation : String) (ignoreCase : Bool) (left right : Parsed F D)

theorem executeArray_noFilterError :
    NoFilterError (executeArray p operation ignoreCase left right) := by
  rw [executeArray.eq_def]
  extract_lets
  split
  all_goals first
    | exact noFilterError_ok _
    | exact orTypeError_noFilterError _
    | exact executeObject_noFilterError p _ _
    | exact (elementsOf_noFilterError _).bind fun _ => noFilterError_ok _

theorem executeBoolean_noFilterError :
    NoFilterError (executeBoolean p operation ignoreCase left right) := by
  rw [executeBoolean.eq_def]
  split
  all_goals first
    | exact noFilterError_ok _
    | exact executeArray_noFilterError p _ _ _ _

theorem executeDateTime_noFilterError :
    NoFilterError (executeDateTime p operation ignoreCase left right) := by
  have hcompare (operator : Value F → Value F → Option Bool) :
      NoFilterError (do
        let l ← millisOf p left
        let r ← millisOf p right
        orTypeError (operator l r)) :=
    (millisOf_noFilterError p left).bind fun _ =>
      (millisOf_noFilterError p right).bind fun _ =>
        orTypeError_noFilterError _
  rw [executeDateTime.eq_def]
  extract_lets compare
  split
  · exact noFilterError_ok _
  · exact noFilterError_ok _
  · split
    · exact noFilterError_ok _
    · split
      all_goals first
        | exact hcompare _
        | exact executeBoolean_noFilterError p _ _ _ _

theorem executeNumber_noFilterError :
    NoFilterError (executeNumber p operation ignoreCase left right) := by
  rw [executeNumber.eq_def]
  extract_lets
  split
  all_goals first
    | exact noFilterError_ok _
    | exact orTypeError_noFilterError _
    | exact executeDateTime_noFilterError p _ _ _ _

end

theorem executeOperation_noFilterError (operator : FilterOperatorValue)
    (ignoreCase : Bool) (left right : Parsed F D) :
    NoFilterError (executeOperation p operator ignoreCase left right) := by
  rw [executeOperation]
  split
  · exact noFilterError_ok _
  · split
    · exact noFilterError_ok _
    · split
      · exact executeString_noFilterError p _ _ _ _
      · exact executeNumber_noFilterError p _ _ _ _
      · exact executeDateTime_noFilterError p _ _ _ _
      · exact executeBoolean_noFilterError p _ _ _ _
      · exact executeArray_noFilterError p _ _ _ _
      · exact executeObject_noFilterError p _ _
      · exact noFilterError_ok _

/-! ## What the conversion of the operands comes to -/

/-- `String` makes a text of both operands. -/
def HaveTexts (condition : FilterConditionValue F) : Prop :=
  (toText p.numbers condition.leftValue).isSome ∧ (toText p.numbers condition.rightValue).isSome

/-- Both operands convert to the types of the operator; a right operand that
    the operator does not look at need not. -/
def OperandsConvert (condition : FilterConditionValue F) (options : FilterOptionsValue) : Prop :=
  (parseSingleFilterValue p condition.leftValue condition.operator.type
      (options.typeValidation = .strict) (options.version.getD 1)).isValid = true
    ∧ ((parseSingleFilterValue p condition.rightValue
        (condition.operator.rightType.getD condition.operator.type)
        (options.typeValidation = .strict) (options.version.getD 1)).isValid = true
      ∨ condition.operator.singleValue = true)

section

variable (condition : FilterConditionValue F) (options : FilterOptionsValue)

theorem parseFilterConditionValues_noFilterError (metadata : FilterConditionMetadata) :
    NoFilterError (parseFilterConditionValues p condition options metadata) := by
  rw [parseFilterConditionValues]
  extract_lets
  refine (stringOf_noFilterError p _).bind fun _ => ?_
  refine (stringOf_noFilterError p _).bind fun _ => ?_
  exact noFilterError_ok _

theorem parseFilterConditionValues_failure_iff
    (index itemIndex : Option Nat) (errorFormat : Option ErrorFormat) :
    (∃ error, parseFilterConditionValues p condition options
        { index, unresolvedExpressions := false, itemIndex, errorFormat } = .ok (.error error))
      ↔ HaveTexts p condition ∧ ¬ OperandsConvert p condition options := by
  rw [parseFilterConditionValues, HaveTexts]
  extract_lets
  cases hleft : toText p.numbers condition.leftValue with
  | none => simp [stringOf, hleft, bind, Except.bind]
  | some left =>
    cases hright : toText p.numbers condition.rightValue with
    | none => simp [stringOf, hleft, hright, bind, Except.bind]
    | some right =>
      simp only [stringOf, hleft, hright, OperandsConvert]
      generalize (parseSingleFilterValue p condition.leftValue
        condition.operator.type _ _).isValid = leftValid
      generalize (parseSingleFilterValue p condition.rightValue _ _ _).isValid = rightValid
      generalize decide (typeOf condition.leftValue = typeOf condition.rightValue) = sameType
      cases leftValid <;> cases rightValid
        <;> cases condition.operator.singleValue <;> cases sameType
        <;> simp [bind, Except.bind, pure, Except.pure]

theorem executeFilterCondition_filterError_iff
    (metadata : FilterConditionMetadata) (error : FilterError) :
    executeFilterCondition p condition options metadata
        = .error (.filterError error)
      ↔ parseFilterConditionValues p condition options metadata = .ok (.error error) := by
  rw [executeFilterCondition]
  have hparse := parseFilterConditionValues_noFilterError p condition options metadata
  cases h : parseFilterConditionValues p condition options metadata with
  | error thrown =>
    constructor
    · intro hthrown
      cases hthrown
      exact absurd h (hparse error)
    · intro hok
      cases hok
  | ok outcome =>
    cases outcome with
    | error e =>
      constructor
      · intro hthrown
        cases hthrown
        rfl
      · intro hok
        cases hok
        rfl
    | ok operands =>
      obtain ⟨left, right⟩ := operands
      refine ⟨fun hthrown => absurd hthrown ?_, fun hok => by cases hok⟩
      exact executeOperation_noFilterError p condition.operator
        (!options.caseSensitive) left right error

end

/-! ## What validation reports -/

theorem validateCondition_eq (name : JsString) (options : FilterOptionsValue)
    (issues : Issues) (entry : FilterConditionValue F × Nat) :
    validateCondition p name options issues entry = .ok issues := by
  rw [validateCondition]
  have hparse := parseFilterConditionValues_noFilterError p entry.1 options
    { index := some entry.2, unresolvedExpressions := true
      itemIndex := none, errorFormat := some .inline }
  split
  · rfl
  · rename_i error h
    exact absurd h (hparse error)
  · rfl

/-- **VALIDATION REPORTS NOTHING**, whatever the conditions are. -/
theorem validateFilterParameter_eq (name : JsString) (value : FilterValue F) :
    validateFilterParameter p name value = .ok .empty := by
  rw [validateFilterParameter]
  generalize (OrderedMap.empty : Issues) = issues
  generalize value.conditions.zipIdx = entries
  induction entries generalizing issues with
  | nil => rfl
  | cons entry rest ih =>
    rw [List.foldlM_cons, validateCondition_eq]
    exact ih issues

/-! ## Validation and execution -/

/-- Validation reports an issue of the condition. -/
def Reports (name : JsString) (value : FilterValue F) (index : Nat) : Prop :=
  ∃ issues messages, validateFilterParameter p name value = .ok issues
    ∧ issues.get? (issueKey name index) = some messages ∧ messages ≠ []

/-- Executing the condition throws an error of the filter. -/
def Throws (condition : FilterConditionValue F) (options : FilterOptionsValue)
    (index : Nat) (itemIndex : Option Nat) : Prop :=
  ∃ error, executeFilterCondition p condition options
      { index := some index, unresolvedExpressions := false
        itemIndex, errorFormat := none }
    = .error (.filterError error)

theorem not_reports (name : JsString) (value : FilterValue F) (index : Nat) :
    ¬ Reports p name value index := by
  rintro ⟨issues, messages, hvalidate, hget, -⟩
  rw [validateFilterParameter_eq] at hvalidate
  cases hvalidate
  cases hget

theorem throws_iff (condition : FilterConditionValue F)
    (options : FilterOptionsValue) (index : Nat) (itemIndex : Option Nat) :
    Throws p condition options index itemIndex
      ↔ HaveTexts p condition ∧ ¬ OperandsConvert p condition options := by
  rw [Throws]
  simp only [executeFilterCondition_filterError_iff]
  exact parseFilterConditionValues_failure_iff p condition options _ _ _

/-- **VALIDATION AGREES WITH EXECUTION** on a condition exactly where its
    operands convert to the types of its operator (or have no texts at
    all). -/
theorem reports_iff_throws_iff (name : JsString) (value : FilterValue F)
    (index : Fin value.conditions.length) (itemIndex : Option Nat) :
    (Reports p name value index
        ↔ Throws p (value.conditions.get index) value.options index itemIndex)
      ↔ (HaveTexts p (value.conditions.get index)
        → OperandsConvert p (value.conditions.get index) value.options) := by
  have hreports := not_reports p name value index
  rw [throws_iff]
  constructor
  · intro hagree htexts
    refine Classical.by_contradiction fun hconvert => ?_
    exact hreports (hagree.mpr ⟨htexts, hconvert⟩)
  · intro hconvert
    refine ⟨fun h => absurd h hreports, ?_⟩
    rintro ⟨htexts, hnot⟩
    exact absurd (hconvert htexts) hnot

end

/-! ## A text compared as a number -/

/-- The integers, letters of the Latin alphabet, and no dates. -/
def plainPlatform : Platform Int Unit where
  numbers := integers
  trim s := s
  toLowerCase s := s.map fun u => if 65 ≤ u ∧ u ≤ 90 then u + 32 else u
  toLocaleLowerCase s := s.map fun u => if 65 ≤ u ∧ u ≤ 90 then u + 32 else u
  stringify _ := []
  parse _ := none
  parseObject _ := none
  parseDate _ := none
  toMillis _ := .nan
  dateText _ := []
  regex _ _ := none
  matchSlashes _ := none

/-- The condition `"abc" > 1`, of numbers. -/
def textAboveOne : FilterValue Int :=
  { options := { caseSensitive := true, typeValidation := .loose
                 version := some 2 }
    conditions :=
      [{ leftValue := .string (ofString "abc")
         operator := { type := .number, operation := "gt", rightType := none
                       singleValue := false }
         rightValue := .number (.real 1) }] }

/-- It throws, and no issue is reported. -/
theorem not_reports_iff_throws :
    ¬ ∀ (name : JsString) (value : FilterValue Int) (index : Fin value.conditions.length)
    (itemIndex : Option Nat),
      (Reports plainPlatform name value index
        ↔ Throws plainPlatform (value.conditions.get index) value.options index itemIndex) := by
  intro hagree
  have hthrows : Throws plainPlatform
      (textAboveOne.conditions.get ⟨0, by decide⟩) textAboveOne.options 0 none := by
    refine (throws_iff _ _ _ _ _).mpr ⟨⟨rfl, rfl⟩, ?_⟩
    intro hconvert
    exact absurd hconvert.1 (by decide)
  exact not_reports plainPlatform [] textAboveOne 0
    ((hagree [] textAboveOne ⟨0, by decide⟩ none).mpr hthrows)

end N8nFilterParameter
