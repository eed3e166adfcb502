import Mathlib.Data.List.Sort
import N8n.RunProofs
import N8n.OrderedMapProofs
import N8n.PythonAstProofs

/-! # The security check of Python code

    Before a task runs, its code is parsed and a visitor goes through the
    tree.  It checks imports against the allowlists, and names, attributes
    and subscripts against lists of blocked ones.  The violations found are
    kept in a cache, under a hash of the code and the allowlists.

    `violations_eq_nil_iff` says what the visitor looks for: a program has no
    violations exactly when none of its nodes is flagged.  Two kinds of nodes
    read an attribute without an attribute expression, the members of a
    `from` import and the keywords of a class pattern, and the visitor looks
    at neither.  `secure_iff_covered` compares this with what the check is
    for, over every sequence of validations. -/

namespace N8nTaskAnalyzer

open N8nRun N8nOrderedMap N8nSyntaxTree N8nPythonAst List

/-! ## Constants -/

def MAX_VALIDATION_CACHE_SIZE : Nat := 500

def BLOCKED_NAMES : List String :=
  ["__loader__", "__builtins__", "__globals__", "__spec__", "__name__"]

def BLOCKED_ATTRIBUTES : List String :=
  -- runtime attributes
  ["__subclasses__", "__globals__", "__builtins__", "__traceback__",
   "tb_frame", "tb_next", "f_back", "f_globals", "f_locals", "f_code",
   "f_builtins", "__getattribute__", "__qualname__", "__module__",
   "gi_frame", "gi_code", "gi_yieldfrom", "cr_frame", "cr_code", "ag_frame",
   "ag_code", "obj", "__thisclass__", "__self_class__",
   -- introspection attributes
   "__base__", "__class__", "__bases__", "__code__", "__closure__",
   "__loader__", "__cached__", "__dict__", "__import__", "__mro__",
   "__init_subclass__", "__getattr__", "__setattr__", "__delattr__",
   "__self__", "__func__", "__wrapped__", "__annotations__", "__spec__"]

def ERROR_RELATIVE_IMPORT : String := "Relative imports are disallowed."

def ERROR_STDLIB_DISALLOWED (module allowed : String) : String :=
  "Import of standard library module '" ++ module
    ++ "' is disallowed. Allowed stdlib modules: " ++ allowed

def ERROR_EXTERNAL_DISALLOWED (module allowed : String) : String :=
  "Import of external package '" ++ module
    ++ "' is disallowed. Allowed external packages: " ++ allowed

def ERROR_DANGEROUS_NAME (name : String) : String :=
  "Access to name '" ++ name ++ "' is disallowed, because it can be used to "
    ++ "bypass security restrictions."

def ERROR_DANGEROUS_ATTRIBUTE (attr : String) : String :=
  "Access to attribute '" ++ attr ++ "' is disallowed, because it can be "
    ++ "used to bypass security restrictions."

def ERROR_NAME_MANGLED_ATTRIBUTE : String :=
  "Access to name-mangled attributes (pattern: _ClassName__attr) is "
    ++ "disallowed for security reasons."

def ERROR_DYNAMIC_IMPORT : String :=
  "Dynamic __import__() calls are not allowed for security reasons."

/-! ## Imports -/

structure SecurityConfig where
  stdlibAllow : List String
  externalAllow : List String

def sorted (names : List String) : List String := names.insertionSort (· ≤ ·)

/-- `module_path.split(".")[0]`. -/
def moduleName (modulePath : String) : String :=
  String.ofList (modulePath.toList.takeWhile (· ≠ '.'))

section

-- `sys.stdlib_module_names`.
variable (stdlibModuleNames : String → Bool)

def validateModuleImport (modulePath : String) (config : SecurityConfig) : Bool × Option String :=
  let name := moduleName modulePath
  let isStdlib := stdlibModuleNames name
  let isExternal := !isStdlib
  if isStdlib && (config.stdlibAllow.contains "*"
      || config.stdlibAllow.contains name) then (true, none)
  else if isExternal && (config.externalAllow.contains "*"
      || config.externalAllow.contains name) then (true, none)
  else if isStdlib then
    let allowed := if config.stdlibAllow = [] then "none"
      else ", ".intercalate (sorted config.stdlibAllow)
    (false, some (ERROR_STDLIB_DISALLOWED modulePath allowed))
  else
    let allowed := if config.externalAllow = [] then "none"
      else ", ".intercalate (sorted config.externalAllow)
    (false, some (ERROR_EXTERNAL_DISALLOWED modulePath allowed))

/-! ## The visitor -/

/-- The modules that were checked, and the violations found. -/
structure SecurityValidator where
  checkedModules : List String
  violations : List String

def SecurityValidator.new : SecurityValidator :=
  { checkedModules := [], violations := [] }

def SecurityValidator.addViolation (s : SecurityValidator) (lineno : Nat)
    (message : String) : SecurityValidator :=
  { s with violations := s.violations ++ ["Line " ++ toString lineno ++ ": " ++ message] }

def startsWithDot (modulePath : String) : Bool := modulePath.toList.head? = some '.'

/-- A module is only checked once, whatever follows its name. -/
def validateImport (config : SecurityConfig) (s : SecurityValidator)
    (modulePath : String) (lineno : Nat) : SecurityValidator :=
  if startsWithDot modulePath then
    s.addViolation lineno ERROR_RELATIVE_IMPORT
  else
    let name := moduleName modulePath
    if name ∈ s.checkedModules then s
    else
      let s := { s with checkedModules := s.checkedModules ++ [name] }
      match validateModuleImport stdlibModuleNames modulePath config with
      | (true, _) => s
      | (false, message) => s.addViolation lineno (message.getD "")

/-- The text before the first `__`, if there is one. -/
def beforeDunder : List Char → Option (List Char)
  | '_' :: '_' :: _ => some []
  | c :: rest => (beforeDunder rest).map (c :: ·)
  | [] => none

/-- `_ClassName__attr`. -/
def isNameMangled (attr : String) : Bool :=
  attr.toList.head? = some '_' && (beforeDunder attr.toList).any fun part => part.head? = some '_'

def isImportCall : Ast → Bool
  | .Name _ id => id = "__import__"
  | .Attribute _ (.Name _ id) attr =>
    attr = "__import__" && (id = "builtins" || id = "__builtins__")
  | _ => false

def isBuiltinsAccess : Ast → Bool
  | .Name _ id => id = "__builtins__" || id = "builtins"
  | .Attribute _ _ attr => attr = "__builtins__" || attr = "builtins"
  | _ => false

/-- What the visitor does at a node before it goes on to the children. -/
def checkNode (config : SecurityConfig) (s : SecurityValidator) :
    Ast → SecurityValidator
  | .Import lineno names =>
    names.foldl (fun s imported =>
      validateImport stdlibModuleNames config s imported.name lineno) s
  | .ImportFrom lineno module _ level =>
    if 0 < level then s.addViolation lineno ERROR_RELATIVE_IMPORT
    else
      match module with
      | none => s
      | some module =>
        if module = "" then s
        else validateImport stdlibModuleNames config s module lineno
  | .Name lineno id =>
    if id ∈ BLOCKED_NAMES then
      s.addViolation lineno (ERROR_DANGEROUS_NAME id)
    else s
  | .Attribute lineno _ attr =>
    let s := if attr ∈ BLOCKED_ATTRIBUTES then
        s.addViolation lineno (ERROR_DANGEROUS_ATTRIBUTE attr)
      else s
    if isNameMangled attr then
      s.addViolation lineno ERROR_NAME_MANGLED_ATTRIBUTE
    else s
  | .Call lineno func args _ =>
    if isImportCall func then
      match args with
      | .Constant (.str module) :: _ =>
        validateImport stdlibModuleNames config s module lineno
      | _ => s.addViolation lineno ERROR_DYNAMIC_IMPORT
    else s
  | .Subscript lineno value slice =>
    match slice with
    | .Constant (.str key) =>
      if isBuiltinsAccess value ∧ key ∈ BLOCKED_ATTRIBUTES then
        s.addViolation lineno (ERROR_DANGEROUS_ATTRIBUTE key)
      else s
    | _ => s
  | _ => s

def violations (config : SecurityConfig) (tree : Ast) : List String :=
  (visit (checkNode stdlibModuleNames config) .new tree).violations

end

/-! ## The analyzer -/

section

-- `sys.stdlib_module_names`, `ast.parse` and the hash of the cache key.
variable (stdlibModuleNames : String → Bool) (parse : String → Option Ast)
  (sha256 : String → String)

/-- The hash of the code, and the two allowlists. -/
abbrev CacheKey := String × List String × List String

abbrev ValidationCache := OrderedMap CacheKey (List String)

inductive Outcome where
  | accepted
  | syntaxError
  | securityViolation (description : String)

def allowAll (config : SecurityConfig) : Bool :=
  config.stdlibAllow.contains "*" && config.externalAllow.contains "*"

def toCacheKey (config : SecurityConfig) (code : String) : CacheKey :=
  (sha256 code, sorted config.stdlibAllow, sorted config.externalAllow)

/-- `_raise_security_error`, unless there is nothing to raise. -/
def outcomeOf (violations : List String) : Outcome :=
  if violations = [] then .accepted
  else .securityViolation ("\n".intercalate violations)

/-- The oldest entry goes when the cache is full. -/
def setInCache (cache : ValidationCache) (key : CacheKey)
    (violations : List String) : ValidationCache :=
  let cache := if MAX_VALIDATION_CACHE_SIZE ≤ cache.size then
      match cache.keys.head? with
      | some oldest => cache.delete oldest
      | none => cache
    else cache
  (cache.delete key).set key violations

def validate (config : SecurityConfig) (cache : ValidationCache)
    (code : String) : ValidationCache × Outcome :=
  if allowAll config then (cache, .accepted)
  else
    let key := toCacheKey sha256 config code
    match cache.get? key with
    | some cached => ((cache.delete key).set key cached, outcomeOf cached)
    | none =>
      match parse code with
      | none => (cache, .syntaxError)
      | some tree =>
        let found := violations stdlibModuleNames config tree
        (setInCache cache key found, outcomeOf found)

end

/-! ## What the check is for -/

section

variable (stdlibModuleNames : String → Bool)

/-- The allowlists let the module in; a relative path is never let in. -/
def ImportAllowed (config : SecurityConfig) (modulePath : String) : Prop :=
  startsWithDot modulePath = false
    ∧ (validateModuleImport stdlibModuleNames modulePath config).1 = true

/-- The modules a node imports: by an import statement, where a relative one
    begins with its dots, or by a call of `__import__` with a text. -/
@[grind =] def imports : Ast → List String
  | .Import _ names => names.map Alias.name
  | .ImportFrom _ module _ level =>
    if level = 0 then (module.filter (· ≠ "")).toList
    else [String.ofList (List.replicate level '.') ++ module.getD ""]
  | .Call _ func args _ =>
    if isImportCall func then
      match args with
      | .Constant (.str module) :: _ => [module]
      | _ => []
    else []
  | _ => []

/-- The attributes a node reads by an attribute expression. -/
@[grind =] def attributes : Ast → List String
  | .Attribute _ _ attr => [attr]
  | _ => []

/-- The attributes a node reads without one: the members it imports, and the
    keywords of a class pattern. -/
@[grind =] def otherAttributes : Ast → List String
  | .ImportFrom _ _ names _ => names.map Alias.name
  | .MatchClass _ _ kwdAttrs _ => kwdAttrs
  | _ => []

@[grind =] def names : Ast → List String
  | .Name _ id => [id]
  | _ => []

/-- The program imports what it may, and reads no blocked attribute and no
    blocked name. -/
structure Confined (config : SecurityConfig) (tree : Ast) : Prop where
  imports : ∀ a, Occurs a tree → ∀ modulePath ∈ imports a,
    ImportAllowed stdlibModuleNames config modulePath
  attributes : ∀ a, Occurs a tree → ∀ attr ∈ attributes a, attr ∉ BLOCKED_ATTRIBUTES
  otherAttributes : ∀ a, Occurs a tree → ∀ attr ∈ otherAttributes a, attr ∉ BLOCKED_ATTRIBUTES
  names : ∀ a, Occurs a tree → ∀ id ∈ names a, id ∉ BLOCKED_NAMES

/-- What the visitor looks for in a node. -/
def Flagged (config : SecurityConfig) (a : Ast) : Prop :=
  (∃ modulePath ∈ imports a, ¬ ImportAllowed stdlibModuleNames config modulePath)
    ∨ (∃ attr ∈ attributes a, attr ∈ BLOCKED_ATTRIBUTES ∨ isNameMangled attr = true)
    ∨ (∃ id ∈ names a, id ∈ BLOCKED_NAMES)
    ∨ match a with
      | .Call _ func args _ =>
        isImportCall func = true ∧ ∀ module rest, args ≠ .Constant (.str module) :: rest
      | .Subscript _ value (.Constant (.str key)) =>
        isBuiltinsAccess value = true ∧ key ∈ BLOCKED_ATTRIBUTES
      | _ => False

/-! ## One node -/

variable {stdlibModuleNames} {config : SecurityConfig}

theorem addViolation_ne_nil (s : SecurityValidator) (lineno : Nat)
    (message : String) : (s.addViolation lineno message).violations ≠ [] := by
  simp [SecurityValidator.addViolation]

/-- A module that was checked is allowed, as long as there is no
    violation. -/
def Checked (stdlibModuleNames : String → Bool) (config : SecurityConfig)
    (s : SecurityValidator) : Prop :=
  s.violations = [] → ∀ modulePath, moduleName modulePath ∈ s.checkedModules →
    (validateModuleImport stdlibModuleNames modulePath config).1 = true

theorem validateModuleImport_congr {path path' : String} (h : moduleName path = moduleName path') :
    (validateModuleImport stdlibModuleNames path config).1
      = (validateModuleImport stdlibModuleNames path' config).1 := by
  simp only [validateModuleImport, h]
  split
  · rfl
  · split
    · rfl
    · split <;> rfl

theorem Checked.addViolation (s : SecurityValidator) (lineno : Nat) (message : String) :
    Checked stdlibModuleNames config (s.addViolation lineno message) :=
  fun h => absurd h (addViolation_ne_nil s lineno message)

variable {s : SecurityValidator}

/-- **AN IMPORT** adds no violation exactly when it is allowed. -/
theorem validateImport_spec (h : Checked stdlibModuleNames config s) (modulePath : String)
    (lineno : Nat) :
    Checked stdlibModuleNames config (validateImport stdlibModuleNames config s modulePath lineno)
      ∧ ((validateImport stdlibModuleNames config s modulePath lineno).violations = []
        ↔ s.violations = [] ∧ ImportAllowed stdlibModuleNames config modulePath) := by
  rw [validateImport]
  by_cases hdot : startsWithDot modulePath = true
  · rw [if_pos hdot]
    refine ⟨.addViolation _ _ _, iff_of_false (addViolation_ne_nil _ _ _) ?_⟩
    rintro ⟨-, hallowed⟩
    exact Bool.false_ne_true (hallowed.1.symm.trans hdot)
  · rw [if_neg hdot]
    rw [Bool.not_eq_true] at hdot
    by_cases hchecked : moduleName modulePath ∈ s.checkedModules
    · rw [if_pos hchecked]
      refine ⟨h, fun hnil => ⟨hnil, hdot, ?_⟩, fun hnil => hnil.1⟩
      exact h hnil modulePath hchecked
    · rw [if_neg hchecked]
      rcases hvalid : validateModuleImport stdlibModuleNames modulePath config
        with ⟨allowed, message⟩
      cases allowed with
      | true =>
        refine ⟨fun hnil path hmem => ?_, fun hnil => ⟨hnil, hdot, ?_⟩, fun hnil => hnil.1⟩
        · rcases mem_append.mp hmem with hmem | hmem
          · exact h hnil path hmem
          · have hname := mem_singleton.mp hmem
            rw [validateModuleImport_congr hname, hvalid]
        · rw [hvalid]
      | false =>
        refine ⟨.addViolation _ _ _, iff_of_false (addViolation_ne_nil _ _ _) ?_⟩
        rintro ⟨-, -, hallowed⟩
        rw [hvalid] at hallowed
        cases hallowed

theorem validateImports_spec
    (h : Checked stdlibModuleNames config s) (lineno : Nat) (imported : List Alias) :
    let s' := imported.foldl (fun s imported =>
      validateImport stdlibModuleNames config s imported.name lineno) s
    Checked stdlibModuleNames config s'
      ∧ (s'.violations = [] ↔ s.violations = []
        ∧ ∀ modulePath ∈ imported.map Alias.name,
          ImportAllowed stdlibModuleNames config modulePath) := by
  induction imported generalizing s with
  | nil => exact ⟨h, by simp⟩
  | cons name rest ih =>
    obtain ⟨hchecked, hiff⟩ := validateImport_spec h name.name lineno
    obtain ⟨hchecked', hiff'⟩ := ih hchecked
    refine ⟨hchecked', ?_⟩
    rw [foldl_cons, hiff', hiff, map_cons, forall_mem_cons, and_assoc]

/-- What the visitor does at one node, as far as acceptance goes. -/
def Treats (stdlibModuleNames : String → Bool) (config : SecurityConfig)
    (s t : SecurityValidator) (a : Ast) : Prop :=
  Checked stdlibModuleNames config t
    ∧ (t.violations = [] ↔ s.violations = [] ∧ ¬ Flagged stdlibModuleNames config a)

theorem treats_self {a : Ast} (h : Checked stdlibModuleNames config s)
    (hflagged : ¬ Flagged stdlibModuleNames config a) :
    Treats stdlibModuleNames config s s a :=
  ⟨h, fun hnil => ⟨hnil, hflagged⟩, fun hnil => hnil.1⟩

theorem treats_addViolation {a : Ast}
    (hflagged : Flagged stdlibModuleNames config a) (lineno : Nat) (message : String) :
    Treats stdlibModuleNames config s (s.addViolation lineno message) a :=
  ⟨.addViolation _ _ _, iff_of_false (addViolation_ne_nil _ _ _) fun h => h.2 hflagged⟩

theorem treats_validateImport {a : Ast}
    (h : Checked stdlibModuleNames config s) (modulePath : String) (lineno : Nat)
    (hflagged : ¬ Flagged stdlibModuleNames config a
      ↔ ImportAllowed stdlibModuleNames config modulePath) :
    Treats stdlibModuleNames config s
      (validateImport stdlibModuleNames config s modulePath lineno) a := by
  obtain ⟨hchecked, hiff⟩ := validateImport_spec h modulePath lineno
  exact ⟨hchecked, hiff.trans (and_congr_right fun _ => hflagged.symm)⟩

theorem startsWithDot_dots {level : Nat} (h : 0 < level) (modulePath : String) :
    startsWithDot (String.ofList (List.replicate level '.') ++ modulePath) = true := by
  obtain ⟨n, rfl⟩ : ∃ n, level = n + 1 := ⟨level - 1, by omega⟩
  simp [startsWithDot, replicate_succ]

section

variable (h : Checked stdlibModuleNames config s)
include h

theorem treats_importFrom
    (lineno : Nat) (module : Option String) (names : List Alias) (level : Nat) :
    Treats stdlibModuleNames config s
      (checkNode stdlibModuleNames config s (.ImportFrom lineno module names level))
      (.ImportFrom lineno module names level) := by
  show Treats stdlibModuleNames config s
    (if 0 < level then
      s.addViolation lineno ERROR_RELATIVE_IMPORT
    else
      match module with
      | none => s
      | some module =>
        if module = "" then s
        else validateImport stdlibModuleNames config s module lineno) _
  have hflagged : Flagged stdlibModuleNames config (.ImportFrom lineno module names level)
      ↔ ∃ modulePath ∈ imports (.ImportFrom lineno module names level),
        ¬ ImportAllowed stdlibModuleNames config modulePath := by
    refine ⟨?_, .inl⟩
    rintro (h | ⟨_, hattr, -⟩ | ⟨_, hname, -⟩ | h)
    · exact h
    · cases hattr
    · cases hname
    · cases h
  by_cases hlevel : 0 < level
  · simp only [if_pos hlevel]
    refine treats_addViolation (hflagged.mpr ?_) _ _
    refine ⟨_, by rw [imports, if_neg (by omega)]; exact mem_singleton_self _, ?_⟩
    intro hallowed
    have hdot := startsWithDot_dots hlevel (module.getD "")
    exact Bool.false_ne_true (hallowed.1.symm.trans hdot)
  · have hzero : level = 0 := by omega
    subst hzero
    cases module with
    | none =>
      refine treats_self h ?_
      rw [hflagged]
      simp [imports]
    | some module =>
      by_cases hempty : module = ""
      · simp only [if_pos hempty]
        refine treats_self h ?_
        rw [hflagged]
        simp [imports, hempty]
      · simp only [if_neg hempty]
        refine treats_validateImport h _ _ ?_
        rw [hflagged]
        simp [imports, hempty]

theorem treats_attribute (lineno : Nat) (value : Ast) (attr : String) :
    Treats stdlibModuleNames config s
      (checkNode stdlibModuleNames config s (.Attribute lineno value attr))
      (.Attribute lineno value attr) := by
  have hflagged : Flagged stdlibModuleNames config (.Attribute lineno value attr)
      ↔ attr ∈ BLOCKED_ATTRIBUTES ∨ isNameMangled attr = true := by
    constructor
    · rintro (⟨_, himport, -⟩ | ⟨read, hread, hblocked⟩ | ⟨_, hname, -⟩ | h)
      · cases himport
      · rwa [mem_singleton.mp hread] at hblocked
      · cases hname
      · cases h
    · exact fun h => .inr (.inl ⟨attr, mem_singleton_self _, h⟩)
  show Treats stdlibModuleNames config s
    (let s := if attr ∈ BLOCKED_ATTRIBUTES then
        s.addViolation lineno (ERROR_DANGEROUS_ATTRIBUTE attr)
      else s
    if isNameMangled attr then
      s.addViolation lineno ERROR_NAME_MANGLED_ATTRIBUTE
    else s) _
  by_cases hmangled : isNameMangled attr = true
  · rw [if_pos hmangled]
    exact ⟨.addViolation _ _ _, iff_of_false (addViolation_ne_nil _ _ _)
      fun hnil => hnil.2 (hflagged.mpr (.inr hmangled))⟩
  · rw [if_neg hmangled]
    by_cases hattr : attr ∈ BLOCKED_ATTRIBUTES
    · rw [if_pos hattr]
      exact treats_addViolation (hflagged.mpr (.inl hattr)) _ _
    · rw [if_neg hattr]
      exact treats_self h fun hf => (hflagged.mp hf).elim hattr hmangled

theorem treats_call (lineno : Nat) (func : Ast) (args keywords : List Ast) :
    Treats stdlibModuleNames config s
      (checkNode stdlibModuleNames config s (.Call lineno func args keywords))
      (.Call lineno func args keywords) := by
  show Treats stdlibModuleNames config s
    (if isImportCall func then
      match args with
      | .Constant (.str module) :: _ =>
        validateImport stdlibModuleNames config s module lineno
      | _ => s.addViolation lineno ERROR_DYNAMIC_IMPORT
    else s) _
  by_cases hcall : isImportCall func = true
  · simp only [if_pos hcall]
    split
    next module rest =>
      have himports : imports (.Call lineno func
          (.Constant (.str module) :: rest) keywords) = [module] :=
        if_pos hcall
      refine treats_validateImport h _ _ ⟨fun hnot => ?_, ?_⟩
      · by_contra hallowed
        refine hnot (.inl ⟨module, ?_, hallowed⟩)
        rw [himports]
        exact mem_singleton_self _
      · rintro hallowed (⟨path, hpath, hnot⟩ | ⟨_, hattr, -⟩
          | ⟨_, hname, -⟩ | ⟨-, hdynamic⟩)
        · rw [himports] at hpath
          rw [mem_singleton.mp hpath] at hnot
          exact hnot hallowed
        · cases hattr
        · cases hname
        · exact hdynamic module rest rfl
    next hargs =>
      have hdynamic : isImportCall func = true ∧ ∀ module rest,
          args ≠ .Constant (.str module) :: rest :=
        ⟨hcall, fun module rest heq => hargs module rest heq⟩
      exact treats_addViolation (.inr (.inr (.inr hdynamic))) _ _
  · simp only [if_neg hcall]
    have himports : imports (.Call lineno func args keywords) = [] := if_neg hcall
    refine treats_self h ?_
    rintro (⟨_, himport, -⟩ | ⟨_, hattr, -⟩ | ⟨_, hname, -⟩ | ⟨himport, -⟩)
    · rw [himports] at himport
      cases himport
    · cases hattr
    · cases hname
    · exact hcall himport

theorem treats_subscript (lineno : Nat) (value slice : Ast) :
    Treats stdlibModuleNames config s
      (checkNode stdlibModuleNames config s (.Subscript lineno value slice))
      (.Subscript lineno value slice) := by
  show Treats stdlibModuleNames config s
    (match slice with
    | .Constant (.str key) =>
      if isBuiltinsAccess value ∧ key ∈ BLOCKED_ATTRIBUTES then
        s.addViolation lineno (ERROR_DANGEROUS_ATTRIBUTE key)
      else s
    | _ => s) _
  split
  next key =>
    by_cases hkey : isBuiltinsAccess value = true ∧ key ∈ BLOCKED_ATTRIBUTES
    · rw [if_pos hkey]
      exact treats_addViolation (.inr (.inr (.inr hkey))) _ _
    · rw [if_neg hkey]
      refine treats_self h ?_
      rintro (⟨_, himport, -⟩ | ⟨_, hattr, -⟩ | ⟨_, hname, -⟩ | hflagged)
      · cases himport
      · cases hattr
      · cases hname
      · exact hkey hflagged
  next hslice =>
    refine treats_self h ?_
    rintro (⟨_, himport, -⟩ | ⟨_, hattr, -⟩ | ⟨_, hname, -⟩ | hkey)
    · cases himport
    · cases hattr
    · cases hname
    · split at hkey
      next heq => cases heq
      next value' key heq =>
        injection heq with _ _ heq
        exact hslice key heq
      next => exact hkey

/-- **ONE NODE** adds a violation exactly when it is flagged. -/
theorem checkNode_spec (a : Ast) :
    Treats stdlibModuleNames config s (checkNode stdlibModuleNames config s a) a := by
  cases a with
  | Import lineno names =>
    obtain ⟨hchecked, hiff⟩ := validateImports_spec h lineno names
    refine ⟨hchecked, hiff.trans (and_congr_right fun _ => ?_)⟩
    constructor
    · rintro hall (⟨path, hpath, hnot⟩ | ⟨_, hattr, -⟩ | ⟨_, hname, -⟩ | h)
      · exact hnot (hall path hpath)
      · cases hattr
      · cases hname
      · cases h
    · intro hnot path hpath
      by_contra hallowed
      exact hnot (.inl ⟨path, hpath, hallowed⟩)
  | ImportFrom lineno module names level =>
    exact treats_importFrom h lineno module names level
  | Name lineno id =>
    show Treats stdlibModuleNames config s
      (if id ∈ BLOCKED_NAMES then
        s.addViolation lineno (ERROR_DANGEROUS_NAME id)
      else s) _
    by_cases hid : id ∈ BLOCKED_NAMES
    · rw [if_pos hid]
      refine treats_addViolation (.inr (.inr (.inl ?_))) _ _
      exact ⟨id, mem_singleton_self _, hid⟩
    · rw [if_neg hid]
      refine treats_self h ?_
      rintro (⟨_, himport, -⟩ | ⟨_, hattr, -⟩ | ⟨name, hname, hblocked⟩ | h)
      · cases himport
      · cases hattr
      · rw [mem_singleton.mp hname] at hblocked
        exact hid hblocked
      · cases h
  | Attribute lineno value attr => exact treats_attribute h lineno value attr
  | Call lineno func args keywords => exact treats_call h lineno func args keywords
  | Subscript lineno value slice => exact treats_subscript h lineno value slice
  | _ =>
    refine treats_self h ?_
    rintro (⟨_, h, -⟩ | ⟨_, h, -⟩ | ⟨_, h, -⟩ | h) <;> cases h

theorem checkNodes_spec (nodes : List Ast) :
    (nodes.foldl (checkNode stdlibModuleNames config) s).violations = []
      ↔ s.violations = [] ∧ ∀ a ∈ nodes, ¬ Flagged stdlibModuleNames config a := by
  induction nodes generalizing s with
  | nil => simp
  | cons a rest ih =>
    obtain ⟨hchecked, hiff⟩ := checkNode_spec h a
    rw [foldl_cons, ih hchecked, hiff, forall_mem_cons, and_assoc]

end

/-- **THE VISITOR** finds nothing exactly when no node is flagged. -/
theorem violations_eq_nil_iff (tree : Ast) :
    violations stdlibModuleNames config tree = []
      ↔ ∀ a, Occurs a tree → ¬ Flagged stdlibModuleNames config a := by
  have hnew : Checked stdlibModuleNames config SecurityValidator.new :=
    fun _ _ hmem => by cases hmem
  rw [violations, visit_eq, checkNodes_spec hnew]
  simp [SecurityValidator.new, mem_preorder]

theorem confined_iff {tree : Ast} (h : ∀ a, Occurs a tree → ¬ Flagged stdlibModuleNames config a) :
    Confined stdlibModuleNames config tree
      ↔ ∀ a, Occurs a tree → ∀ attr ∈ otherAttributes a, attr ∉ BLOCKED_ATTRIBUTES := by
  refine ⟨fun hconfined => hconfined.otherAttributes, fun hother => ?_⟩
  refine ⟨fun a ha modulePath hmem => ?_, fun a ha attr hmem hblocked => ?_,
    hother, fun a ha id hmem hblocked => ?_⟩
  · by_contra hallowed
    exact h a ha (.inl ⟨modulePath, hmem, hallowed⟩)
  · exact h a ha (.inr (.inl ⟨attr, hmem, .inl hblocked⟩))
  · exact h a ha (.inr (.inr (.inl ⟨id, hmem, hblocked⟩)))

/-! ## Allowlists with the same modules -/

theorem mem_sorted {name : String} {names : List String} : name ∈ sorted names ↔ name ∈ names :=
  (perm_insertionSort _ names).mem_iff

section

variable {config config' : SecurityConfig}
  (hstdlib : sorted config.stdlibAllow = sorted config'.stdlibAllow)
  (hexternal : sorted config.externalAllow = sorted config'.externalAllow)
include hstdlib hexternal

theorem importAllowed_congr (modulePath : String) :
    ImportAllowed stdlibModuleNames config modulePath
      ↔ ImportAllowed stdlibModuleNames config' modulePath := by
  have hs : ∀ name, config.stdlibAllow.contains name = config'.stdlibAllow.contains name := by
    intro name
    rw [Bool.eq_iff_iff, contains_iff_mem, contains_iff_mem, ← mem_sorted, hstdlib, mem_sorted]
  have he : ∀ name, config.externalAllow.contains name = config'.externalAllow.contains name := by
    intro name
    rw [Bool.eq_iff_iff, contains_iff_mem, contains_iff_mem, ← mem_sorted, hexternal, mem_sorted]
  have hvalid : (validateModuleImport stdlibModuleNames modulePath config).1
      = (validateModuleImport stdlibModuleNames modulePath config').1 := by
    simp only [validateModuleImport, hs, he]
    split
    · rfl
    · split
      · rfl
      · split <;> rfl
  rw [ImportAllowed, ImportAllowed, hvalid]

theorem flagged_congr (a : Ast) :
    Flagged stdlibModuleNames config a ↔ Flagged stdlibModuleNames config' a := by
  simp [Flagged, importAllowed_congr hstdlib hexternal]

end

end

/-! ## The cache -/

section

variable {stdlibModuleNames : String → Bool} {parse : String → Option Ast}
  {sha256 : String → String} {programs : Set String}

/-- Every entry holds the violations of a program. -/
def Sound (stdlibModuleNames : String → Bool) (parse : String → Option Ast)
    (sha256 : String → String) (programs : Set String) (cache : ValidationCache) : Prop :=
  ∀ key found, cache.get? key = some found → ∃ config code tree,
    code ∈ programs ∧ key = toCacheKey sha256 config code
      ∧ parse code = some tree
      ∧ found = violations stdlibModuleNames config tree

variable {found : List String} {cache : ValidationCache}

theorem get?_moveToEnd {key a : CacheKey} (h : cache.get? key = some found) :
    ((cache.delete key).set key found).get? a = cache.get? a := by
  rw [OrderedMap.get?_set, OrderedMap.get?_delete]
  by_cases ha : key = a
  · subst ha
    rw [if_pos rfl, h]
  · rw [if_neg ha, if_neg (Ne.symm ha)]

theorem get?_setInCache {key a : CacheKey} {stored : List String}
    (h : (setInCache cache key stored).get? a = some found) :
    (a = key ∧ found = stored) ∨ cache.get? a = some found := by
  rw [setInCache, OrderedMap.get?_set, OrderedMap.get?_delete] at h
  by_cases ha : key = a
  · rw [if_pos ha] at h
    exact .inl ⟨ha.symm, (Option.some.inj h).symm⟩
  · rw [if_neg ha, if_neg (Ne.symm ha)] at h
    right
    by_cases hfull : MAX_VALIDATION_CACHE_SIZE ≤ cache.size
    · rw [if_pos hfull] at h
      cases hkeys : cache.keys.head? with
      | none => rwa [hkeys] at h
      | some oldest =>
        rw [hkeys, OrderedMap.get?_delete] at h
        split at h
        · cases h
        · exact h
    · rwa [if_neg hfull] at h

theorem Sound.validate (h : Sound stdlibModuleNames parse sha256 programs cache)
    (config : SecurityConfig) {code : String} (hcode : code ∈ programs) :
    Sound stdlibModuleNames parse sha256 programs
      (validate stdlibModuleNames parse sha256 config cache code).1 := by
  rw [N8nTaskAnalyzer.validate]
  by_cases hall : allowAll config = true
  · rw [if_pos hall]
    exact h
  · rw [if_neg hall]
    dsimp only
    cases hcached : cache.get? (toCacheKey sha256 config code) with
    | some cached =>
      intro key found hfound
      exact h key found ((get?_moveToEnd hcached).symm.trans hfound)
    | none =>
      cases hparse : parse code with
      | none => exact h
      | some tree =>
        intro key found hfound
        rcases get?_setInCache hfound with ⟨rfl, rfl⟩ | hfound
        · exact ⟨config, code, tree, hcode, rfl, hparse, rfl⟩
        · exact h key found hfound

theorem outcomeOf_eq_accepted : outcomeOf found = .accepted ↔ found = [] := by
  rw [outcomeOf]
  split
  next h => simp [h]
  next h => simp [h]

/-- **WHAT IS ACCEPTED**: with or without the cache, the programs that parse
    and have no flagged node. -/
theorem validate_eq_accepted (h : Sound stdlibModuleNames parse sha256 programs cache)
    (hinj : Set.InjOn sha256 programs) {config : SecurityConfig}
    (hall : allowAll config = false) {code : String} (hcode : code ∈ programs) :
    (validate stdlibModuleNames parse sha256 config cache code).2 = .accepted
      ↔ ∃ tree, parse code = some tree ∧ ∀ a, Occurs a tree →
        ¬ Flagged stdlibModuleNames config a := by
  rw [validate, if_neg (by simp [hall])]
  dsimp only
  cases hcached : cache.get? (toCacheKey sha256 config code) with
  | some cached =>
    obtain ⟨config', code', tree, hcode', hkey, hparse, rfl⟩ := h _ _ hcached
    simp only [toCacheKey, Prod.mk.injEq] at hkey
    obtain ⟨hhash, hstdlib, hexternal⟩ := hkey
    obtain rfl := hinj hcode hcode' hhash
    rw [outcomeOf_eq_accepted, violations_eq_nil_iff, hparse]
    simp [flagged_congr hstdlib hexternal]
  | none =>
    cases hparse : parse code with
    | none => simp
    | some tree =>
      simp only [Option.some.injEq, exists_eq_left']
      rw [outcomeOf_eq_accepted, violations_eq_nil_iff]

end

/-! ## Every run -/

section

variable (stdlibModuleNames : String → Bool) (parse : String → Option Ast)
  (sha256 : String → String) (programs : Set String)

/-- An analyzer is created for the configuration and validates the code; all
    analyzers share one cache. -/
structure Validation where
  config : SecurityConfig
  code : String

inductive Step : ValidationCache → Validation → ValidationCache → Prop where
  | validate (cache : ValidationCache) (v : Validation) :
      v.code ∈ programs → Step cache v
        (validate stdlibModuleNames parse sha256 v.config cache v.code).1

/-- A program that is accepted is confined, unless everything is allowed. -/
def Secure (cache : ValidationCache) (v : Validation) : Prop :=
  allowAll v.config = false → (validate stdlibModuleNames parse sha256 v.config cache v.code).2
      = .accepted → ∃ tree, parse v.code = some tree
      ∧ Confined stdlibModuleNames v.config tree

/-- The visitor reports something else in the program, or no member that it
    imports and no keyword of its class patterns is a blocked attribute. -/
def Covered (_ : ValidationCache) (v : Validation) : Prop :=
  allowAll v.config = false → ∀ tree, parse v.code = some tree →
    (∃ a, Occurs a tree ∧ Flagged stdlibModuleNames v.config a)
      ∨ ∀ a, Occurs a tree → ∀ attr ∈ otherAttributes a, attr ∉ BLOCKED_ATTRIBUTES

variable {stdlibModuleNames parse sha256 programs}

theorem secure_iff {cache : ValidationCache} {v : Validation}
    (h : Sound stdlibModuleNames parse sha256 programs cache)
    (hinj : Set.InjOn sha256 programs) (hcode : v.code ∈ programs) :
    Secure stdlibModuleNames parse sha256 cache v ↔ Covered stdlibModuleNames parse cache v := by
  refine forall_congr' fun hall => ?_
  rw [validate_eq_accepted h hinj hall hcode]
  constructor
  · intro hsecure tree hparse
    by_cases hflagged : ∃ a, Occurs a tree ∧ Flagged stdlibModuleNames v.config a
    · exact .inl hflagged
    · have hclean : ∀ a, Occurs a tree → ¬ Flagged stdlibModuleNames v.config a :=
        fun a ha hf => hflagged ⟨a, ha, hf⟩
      obtain ⟨tree', hparse', hconfined⟩ := hsecure ⟨tree, hparse, hclean⟩
      obtain rfl := Option.some.inj (hparse.symm.trans hparse')
      exact .inr hconfined.otherAttributes
  · rintro hcovered ⟨tree, hparse, hclean⟩
    refine ⟨tree, hparse, (confined_iff hclean).mpr ?_⟩
    rcases hcovered tree hparse with ⟨a, ha, hflagged⟩ | hother
    · exact absurd hflagged (hclean a ha)
    · exact hother

theorem Sound.empty : Sound stdlibModuleNames parse sha256 programs .empty := by
  intro key found hfound
  cases hfound

/-- **EVERY RUN**: what is accepted is confined exactly when the visitor
    misses nothing in the members that are imported and in the keywords of
    class patterns.  The hash tells the programs that are validated apart. -/
theorem secure_iff_covered {path : List (Validation × ValidationCache)}
    (hinj : Set.InjOn sha256 programs)
    (hrun : IsRun (Step stdlibModuleNames parse sha256 programs) .empty path) :
    EveryStep (Secure stdlibModuleNames parse sha256) .empty path
      ↔ EveryStep (Covered stdlibModuleNames parse) .empty path := by
  have hempty : Sound stdlibModuleNames parse sha256 programs .empty := Sound.empty
  refine everyStep_congr hrun hempty ?_ ?_
  · rintro cache v _ h ⟨hcode⟩
    exact h.validate v.config hcode
  · rintro cache v _ h ⟨hcode⟩
    exact secure_iff h hinj hcode

end

/-! ## Three programs -/

def usesMath : String := "import math\nreturn math.pi"

def importsLoader : String := "from math import __loader__ as loader\nreturn loader"

def matchesClass : String := "match _items:\n    case list(__class__=c):\n        return c"

def usesMathTree : Ast :=
  .Module [.Import 1 [⟨"math", none⟩], .Return (some (.Attribute 2 (.Name 2 "math") "pi"))]

def importsLoaderTree : Ast :=
  .Module [.ImportFrom 1 (some "math") [⟨"__loader__", some "loader"⟩] 0,
    .Return (some (.Name 2 "loader"))]

def matchesClassTree : Ast :=
  .Module [.Match (.Name 1 "_items")
    [.matchCase (.MatchClass (.Name 2 "list") [] ["__class__"] [.MatchAs none (some "c")])
      none [.Return (some (.Name 3 "c"))]]]

/-- The parser and the hash on the three programs. -/
def parsed : List (String × Ast × String) :=
  [(usesMath, usesMathTree, "74c65723f41a8572936110c2870643f5"
      ++ "18b897f53a1e439fcf9382a4ba29fd44"),
   (importsLoader, importsLoaderTree, "1af560e936879d3beac3a0d38efe0e2c"
      ++ "54713c263ecea37566801825b14097d1"),
   (matchesClass, matchesClassTree, "1e3b5123a71326a6a837f8a09b4002b4"
      ++ "becc5a3fb7b55def00d8dbe74b5d2f3d")]

def parseParsed (code : String) : Option Ast :=
  (parsed.find? fun p => p.1 = code).map fun p => p.2.1

def hashParsed (code : String) : String :=
  ((parsed.find? fun p => p.1 = code).map fun p => p.2.2).getD ""

/-- The standard library of the three programs. -/
def isMath (name : String) : Bool := name = "math"

def mathAllowed : SecurityConfig :=
  { stdlibAllow := ["math"], externalAllow := [] }

def threePrograms : Set String := {code | code ∈ parsed.map Prod.fst}

theorem hashParsed_injOn : Set.InjOn hashParsed threePrograms := by
  have hinj : ∀ code ∈ parsed.map Prod.fst, ∀ code' ∈ parsed.map Prod.fst,
      hashParsed code = hashParsed code' → code = code' := by
    decide +kernel
  intro code hcode code' hcode' heq
  exact hinj code hcode code' hcode' heq

theorem children_eq (a : Ast) : SyntaxTree.children a = N8nPythonAst.children a := rfl

theorem parse_usesMath : parseParsed usesMath = some usesMathTree := by
  simp [parseParsed, parsed]

theorem parse_importsLoader : parseParsed importsLoader = some importsLoaderTree := by
  simp [parseParsed, parsed, importsLoader, usesMath]

theorem parse_matchesClass : parseParsed matchesClass = some matchesClassTree := by
  simp [parseParsed, parsed, matchesClass, importsLoader, usesMath]

/-- A program that only imports `math`, validated twice. -/
theorem usesMath_secure :
    let v := Validation.mk mathAllowed usesMath
    let path := pathOf (fun cache v => (validate isMath parseParsed hashParsed
      v.config cache v.code).1) .empty [v, v]
    EveryStep (Secure isMath parseParsed hashParsed) .empty path := by
  intro v path
  have hcode : usesMath ∈ threePrograms := mem_cons_self ..
  have hrun : IsRun (Step isMath parseParsed hashParsed threePrograms) .empty path :=
    ⟨.validate _ v hcode, .validate _ v hcode, trivial⟩
  have hcovered : ∀ cache, Covered isMath parseParsed cache v := by
    intro cache _ tree hparse
    obtain rfl := Option.some.inj (parse_usesMath.symm.trans hparse)
    right
    simp [← mem_preorder, usesMathTree, preorder_eq, children_eq,
      N8nPythonAst.children, otherAttributes]
  exact (secure_iff_covered hashParsed_injOn hrun).mpr ⟨hcovered _, hcovered _, trivial⟩

theorem importsLoader_not_confined {tree : Ast} (hparse : parseParsed importsLoader = some tree) :
    ¬ Confined isMath mathAllowed tree := by
  obtain rfl := Option.some.inj (parse_importsLoader.symm.trans hparse)
  intro hconfined
  exact hconfined.otherAttributes _ (.inside (mem_cons_self ..) .here)
    "__loader__" (mem_cons_self ..) (by decide)

theorem matchesClass_not_confined {tree : Ast} (hparse : parseParsed matchesClass = some tree) :
    ¬ Confined isMath mathAllowed tree := by
  obtain rfl := Option.some.inj (parse_matchesClass.symm.trans hparse)
  intro hconfined
  have hpattern : Occurs (.MatchClass (.Name 2 "list") [] ["__class__"]
      [.MatchAs none (some "c")]) matchesClassTree := by
    simp [← mem_preorder, matchesClassTree, preorder_eq, children_eq, N8nPythonAst.children]
  exact hconfined.otherAttributes _ hpattern "__class__" (mem_cons_self ..) (by decide)

/-- **TWO ATTRIBUTES** that the visitor does not look at: both programs are
    accepted, and each reads a blocked attribute. -/
theorem blocked_attributes_accepted :
    let run (v : Validation) := validate isMath parseParsed hashParsed v.config .empty v.code
    let loader := Validation.mk mathAllowed importsLoader
    let pattern := Validation.mk mathAllowed matchesClass
    IsRun (Step isMath parseParsed hashParsed threePrograms) .empty [(loader, (run loader).1)]
      ∧ ¬ EveryStep (Secure isMath parseParsed hashParsed) .empty [(loader, (run loader).1)]
      ∧ (run loader).2 = .accepted
      ∧ IsRun (Step isMath parseParsed hashParsed threePrograms) .empty [(pattern, (run pattern).1)]
      ∧ ¬ EveryStep (Secure isMath parseParsed hashParsed) .empty [(pattern, (run pattern).1)]
      ∧ (run pattern).2 = .accepted := by
  intro run loader pattern
  have hall : allowAll mathAllowed = false := by decide +kernel
  have hmath : ImportAllowed isMath mathAllowed "math" := ⟨by decide +kernel, by decide +kernel⟩
  have hloader : importsLoader ∈ threePrograms := mem_cons_of_mem _ (mem_cons_self ..)
  have hpattern : matchesClass ∈ threePrograms :=
    mem_cons_of_mem _ (mem_cons_of_mem _ (mem_cons_self ..))
  have hloaderAccepted : (run loader).2 = .accepted := by
    refine (validate_eq_accepted Sound.empty hashParsed_injOn hall
      hloader).mpr ⟨importsLoaderTree, parse_importsLoader, ?_⟩
    simp [← mem_preorder, importsLoaderTree, preorder_eq, children_eq,
      N8nPythonAst.children, Flagged, imports, attributes, names, hmath, BLOCKED_NAMES]
  have hpatternAccepted : (run pattern).2 = .accepted := by
    refine (validate_eq_accepted Sound.empty hashParsed_injOn hall
      hpattern).mpr ⟨matchesClassTree, parse_matchesClass, ?_⟩
    simp [← mem_preorder, matchesClassTree, preorder_eq, children_eq,
      N8nPythonAst.children, Flagged, imports, attributes, names, BLOCKED_NAMES]
  refine ⟨⟨.validate _ loader hloader, trivial⟩, ?_, hloaderAccepted,
    ⟨.validate _ pattern hpattern, trivial⟩, ?_, hpatternAccepted⟩
  · rintro ⟨hsecure, -⟩
    obtain ⟨tree, hparse, hconfined⟩ := hsecure hall hloaderAccepted
    exact importsLoader_not_confined hparse hconfined
  · rintro ⟨hsecure, -⟩
    obtain ⟨tree, hparse, hconfined⟩ := hsecure hall hpatternAccepted
    exact matchesClass_not_confined hparse hconfined

end N8nTaskAnalyzer
