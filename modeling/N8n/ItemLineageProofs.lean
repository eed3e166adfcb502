import N8n.PairedItemProofs

/-! # Item lineage — where the chains of an item end

    A chain follows any reference of an item, then any reference of the item
    this is, and so on, to the first item of the destination.  `EndsAt` is
    the set of those items.  The search for a paired item is meant to give
    the only one of them, and to report if there are two.

    What it gives is always the end of a chain (`endsAt_of_run`).  That it is
    the only end fails where two ends inside one branch are an error that
    another branch hides.  `right_of_branches` is the step from the branches
    of an item to the item; `right_iff` the search as a whole. -/

namespace N8nItemLineage

open Relation N8nOrderedMap N8nPairedItem List
open N8nWorkflowExecute (ISourceData)

variable {I : Type} (that : WorkflowDataProxy I) (destinationNodeName usedMethodName : String)

/-! ## Chains -/

/-- The call is for an item before the destination. -/
def Reads (call : Call) (stack : Nat) (source : ISourceData) (item : I) : Prop :=
  call.stack = stack + 1 ∧ source.previousNode ≠ destinationNodeName
    ∧ ∃ outputData, Finds that call source outputData ∧ elementAt outputData call.item = some item

/-- The call is for an output of the destination. -/
def Arrives (call : Call) (outputData : List I) : Prop :=
  ∃ source, Finds that call source outputData ∧ source.previousNode = destinationNodeName

/-- One reference of the item, with an input the run has or not. -/
def References (call next : Call) : Prop :=
  ∃ stack source item, Reads that destinationNodeName call stack source item
    ∧ ∃ reference ∈ normalizePairedItem (that.pairedItem item),
        next = nextCall that stack source reference

/-- A chain of the call ends at the item. -/
inductive EndsAt : Call → I → Prop
  | here {call outputData x} (harrives : Arrives that destinationNodeName call
      outputData) (hitem : elementAt outputData call.item = some x) :
      EndsAt call x
  | through {call next x} (hrefers : References that destinationNodeName call
      next) (hends : EndsAt next x) : EndsAt call x

/-- A chain that is followed ends at the destination, before its first
    item. -/
inductive Strays : Call → Prop
  | here {call outputData} (harrives : Arrives that destinationNodeName call
      outputData) (hneg : call.item < 0) : Strays call
  | through {call next} (hmakes : Makes that destinationNodeName call next)
      (hstrays : Strays next) : Strays call

def OnlyAt (call : Call) (x : I) : Prop :=
  EndsAt that destinationNodeName call x ∧ ∀ y, EndsAt that destinationNodeName call y → y = x

def Ambiguous (call : Call) : Prop :=
  ∃ x y, EndsAt that destinationNodeName call x ∧ EndsAt that destinationNodeName call y ∧ x ≠ y

/-- What a branch is worth: the item its chains end at, or none if they only
    go astray. -/
def Worth (call : Call) : Option I → Prop
  | some x => OnlyAt that destinationNodeName call x
  | none => (∀ x, ¬ EndsAt that destinationNodeName call x) ∧ Strays that destinationNodeName call

/-- The branches of an item tell what its chains do.  If they end at one
    item, a branch is worth it and none is worth less.  If they end at two,
    two branches differ, or none is worth anything and the first has two ends
    itself. -/
structure Branches (call : Call) : Prop where
  single : ∀ stack source item, Reads that destinationNodeName call stack source item →
    ∀ x, OnlyAt that destinationNodeName call x →
      (∃ next ∈ callsOf that stack source item, Worth that destinationNodeName next (some x))
        ∧ ∀ next ∈ callsOf that stack source item, ¬ Worth that destinationNodeName next none
  several : ∀ stack source item, Reads that destinationNodeName call stack source item →
    Ambiguous that destinationNodeName call →
      (∃ y z, y ≠ z
          ∧ (∃ next ∈ callsOf that stack source item, Worth that destinationNodeName next y)
          ∧ ∃ next ∈ callsOf that stack source item, Worth that destinationNodeName next z)
        ∨ (∀ next ∈ callsOf that stack source item, ∀ y, ¬ Worth that destinationNodeName next y)
          ∧ ∃ first rest, callsOf that stack source item = first :: rest
              ∧ Ambiguous that destinationNodeName first

variable {call : Call} {item : I} {source : ISourceData}

theorem reads_unique {stack stack' : Nat} {source' : ISourceData} {item' : I}
    (h : Reads that destinationNodeName call stack source item)
    (h' : Reads that destinationNodeName call stack' source' item') :
    stack' = stack ∧ source' = source ∧ item' = item := by
  obtain ⟨hstack, -, outputData, ⟨-, hsource, houtput⟩, hitem⟩ := h
  obtain ⟨hstack', -, outputData', ⟨-, hsource', houtput'⟩, hitem'⟩ := h'
  cases hsource.symm.trans hsource'
  cases houtput.symm.trans houtput'
  cases hitem.symm.trans hitem'
  exact ⟨by omega, rfl, rfl⟩

variable {outputData : List I}

theorem not_reads_of_arrives (h : Arrives that destinationNodeName call outputData) {stack : Nat} :
    ¬ Reads that destinationNodeName call stack source item := by
  rintro ⟨-, hne, _, ⟨-, hsource, -⟩, -⟩
  obtain ⟨source', ⟨-, hsource', -⟩, heq⟩ := h
  cases hsource.symm.trans hsource'
  exact hne heq

theorem arrives_unique {outputData' : List I} (h : Arrives that destinationNodeName call outputData)
    (h' : Arrives that destinationNodeName call outputData') :
    outputData' = outputData := by
  obtain ⟨source, ⟨-, hsource, houtput⟩, -⟩ := h
  obtain ⟨source', ⟨-, hsource', houtput'⟩, -⟩ := h'
  cases hsource.symm.trans hsource'
  exact Option.some.inj (houtput'.symm.trans houtput)

variable {next : Call}

theorem makes_iff :
    Makes that destinationNodeName call next
      ↔ ∃ stack source item, Reads that destinationNodeName call stack source
          item ∧ next ∈ callsOf that stack source item := by
  constructor
  · rintro ⟨stack, source, outputData, item, hstack, hfinds, hne, hitem, hmem⟩
    exact ⟨stack, source, item, ⟨hstack, hne, outputData, hfinds, hitem⟩, hmem⟩
  · rintro ⟨stack, source, item, ⟨hstack, hne, outputData, hfinds, hitem⟩, hmem⟩
    exact ⟨stack, source, outputData, item, hstack, hfinds, hne, hitem, hmem⟩

theorem references_of_makes (h : Makes that destinationNodeName call next) :
    References that destinationNodeName call next := by
  obtain ⟨stack, source, item, hreads, hmem⟩ := (makes_iff that _).mp h
  obtain ⟨reference, href, rfl⟩ := mem_map.mp hmem
  exact ⟨stack, source, item, hreads, reference, (mem_filter.mp href).1, rfl⟩

variable {x : I}

theorem endsAt_of_worth {stack : Nat}
    (hreads : Reads that destinationNodeName call stack source item)
    (hnext : next ∈ callsOf that stack source item)
    (hworth : Worth that destinationNodeName next (some x)) :
    EndsAt that destinationNodeName call x :=
  .through (references_of_makes that _ ((makes_iff that _).mpr
    ⟨stack, source, item, hreads, hnext⟩)) hworth.1

theorem stack_lt (h : References that destinationNodeName call next) : next.stack < call.stack := by
  obtain ⟨stack, source, item, ⟨hstack, -⟩, reference, -, rfl⟩ := h
  show stack < call.stack
  omega

theorem onlyAt_or_ambiguous (hends : EndsAt that destinationNodeName call x) :
    OnlyAt that destinationNodeName call x ∨ Ambiguous that destinationNodeName call := by
  by_cases hall : ∀ y, EndsAt that destinationNodeName call y → y = x
  · exact Or.inl ⟨hends, hall⟩
  · push Not at hall
    obtain ⟨y, hy, hne⟩ := hall
    exact Or.inr ⟨y, x, hy, hends, hne⟩

theorem endsAt_iff_of_arrives (harrives : Arrives that destinationNodeName call outputData) :
    EndsAt that destinationNodeName call x ↔ elementAt outputData call.item = some x := by
  refine ⟨fun hends => ?_, .here harrives⟩
  cases hends with
  | here harrives' hitem => rwa [arrives_unique that _ harrives harrives'] at hitem
  | through hrefers _ =>
    obtain ⟨stack, source, item, hreads, -⟩ := hrefers
    exact absurd hreads (not_reads_of_arrives that _ harrives)

/-! ## What a call gives -/

section

/-- The error for many matches. -/
def IsMultiple (result : Except Thrown (Option I)) : Prop :=
  ∃ error, result = .error (.expressionError error) ∧ error.type = "paired_item_multiple_matches"

theorem isMultiple_multiple (item : Int) :
    IsMultiple (I := I) (.error (.expressionError
      (createPairedItemMultipleItemsFound that destinationNodeName item))) :=
  ⟨_, rfl, type_createExpressionError ..⟩

theorem not_isMultiple_ok (y : Option I) : ¬ IsMultiple (.ok y : Except Thrown (Option I)) := by
  rintro ⟨_, h, -⟩
  cases h

theorem not_isMultiple_error (type : String) {error : ExpressionError}
    (htype : error.type = type) (hne : type ≠ "paired_item_multiple_matches") :
    ¬ IsMultiple (I := I) (.error (.expressionError error)) := by
  rintro ⟨_, h, hmultiple⟩
  cases h
  exact hne (htype.symm.trans hmultiple)

variable [DecidableEq I]

variable {call : Call}

section

variable {outputData : List I} (h : Arrives that destinationNodeName call outputData)
include h

theorem run_of_arrives :
    run that destinationNodeName usedMethodName call
        = .ok (elementAt outputData call.item) ∧ call.item < outputData.length
      ∨ (∃ error, run that destinationNodeName usedMethodName call
            = .error (.expressionError error)
          ∧ error.type = "paired_item_no_info")
          ∧ (outputData.length : Int) ≤ call.item := by
  obtain ⟨source, hfinds, hdest⟩ := h
  rw [run_destination that _ _ hfinds hdest]
  split
  · rename_i hlarge
    exact Or.inr ⟨⟨_, rfl, rfl⟩, hlarge⟩
  · rename_i hlarge
    exact Or.inl ⟨rfl, not_le.mp hlarge⟩

theorem run_of_arrives_eq_ok {y : Option I} :
    run that destinationNodeName usedMethodName call = .ok y
      ↔ call.item < outputData.length ∧ y = elementAt outputData call.item := by
  obtain ⟨hrun, hsmall⟩ | ⟨⟨error, hrun, -⟩, hlarge⟩ := run_of_arrives that _ usedMethodName h
  · rw [hrun]
    exact ⟨fun hok => ⟨hsmall, (Except.ok.inj hok).symm⟩, fun ⟨_, hy⟩ => congrArg Except.ok hy.symm⟩
  · rw [hrun]
    constructor
    · intro hok
      cases hok
    · rintro ⟨hsmall, -⟩
      omega

end

section

variable {call : Call} {stack : Nat} {source : ISourceData} {item : I}
  (hreads : Reads that destinationNodeName call stack source item)
include hreads

theorem run_of_reads : (callsOf that stack source item = []
        ∧ ∃ thrown, run that destinationNodeName usedMethodName call
            = .error thrown
          ∧ ¬ IsMultiple (I := I) (.error thrown))
      ∨ ∃ index, run that destinationNodeName usedMethodName call
          = settle that destinationNodeName source (sourceArrayOf that source)
              index call.nodeBeforeLast
              ((callsOf that stack source item).map
                (run that destinationNodeName usedMethodName)) := by
  obtain ⟨hstack, hne, outputData, hfinds, hitem⟩ := hreads
  by_cases hnone : normalizePairedItem (that.pairedItem item) = []
  · have hnil : callsOf that stack source item = [] := by
      rw [callsOf, hnone]
      rfl
    exact Or.inl ⟨hnil, _, run_noReference that _ _ hfinds hne hitem hnone,
      not_isMultiple_error "paired_item_no_info" rfl (by decide)⟩
  · exact Or.inr ⟨_, run_references that _ _ hstack hfinds hne hitem hnone⟩

theorem run_of_reads_eq_ok {y : Option I} :
    run that destinationNodeName usedMethodName call = .ok y
      ↔ (∃ next ∈ callsOf that stack source item,
            run that destinationNodeName usedMethodName next = .ok y)
        ∧ ∀ next ∈ callsOf that stack source item, ∀ z,
            run that destinationNodeName usedMethodName next = .ok z → z = y := by
  obtain ⟨hnil, thrown, hrun, -⟩ | ⟨index, hrun⟩ := run_of_reads that _ usedMethodName hreads
  · rw [hrun, hnil]
    constructor
    · intro h
      cases h
    · rintro ⟨⟨next, hmem, -⟩, -⟩
      exact absurd hmem not_mem_nil
  · rw [hrun, settle_eq_ok]
    simp only [mem_map]
    constructor
    · exact fun ⟨hy, hall⟩ =>
        ⟨hy, fun next hnext z hz => hall z ⟨next, hnext, hz⟩⟩
    · rintro ⟨hy, hall⟩
      exact ⟨hy, fun z ⟨next, hnext, hz⟩ => hall next hnext z hz⟩

/-- It reports many matches if two of them differ, or if none gives anything
    and the first reports them. -/
theorem isMultiple_of_reads :
    IsMultiple (run that destinationNodeName usedMethodName call)
      ↔ (∃ y z, y ≠ z
          ∧ (∃ next ∈ callsOf that stack source item,
              run that destinationNodeName usedMethodName next = .ok y)
          ∧ ∃ next ∈ callsOf that stack source item,
              run that destinationNodeName usedMethodName next = .ok z)
        ∨ (∀ next ∈ callsOf that stack source item, ∀ y,
              run that destinationNodeName usedMethodName next ≠ .ok y)
          ∧ ∃ first rest, callsOf that stack source item = first :: rest
              ∧ IsMultiple (run that destinationNodeName usedMethodName first) := by
  obtain ⟨hnil, thrown, hrun, hthrown⟩ | ⟨index, hrun⟩ := run_of_reads that _ usedMethodName hreads
  · rw [hrun, hnil]
    refine ⟨fun h => absurd h hthrown, ?_⟩
    rintro (⟨_, _, -, ⟨_, hmem, -⟩, -⟩ | ⟨-, _, _, hcons, -⟩)
    · exact absurd hmem not_mem_nil
    · cases hcons
  · rw [hrun]
    by_cases hfailed : ∀ next ∈ callsOf that stack source item, ∀ y,
        run that destinationNodeName usedMethodName next ≠ .ok y
    · have hnone : ∀ y, .ok y ∉ (callsOf that stack source item).map
          (run that destinationNodeName usedMethodName) := by
        intro y hy
        obtain ⟨next, hnext, hok⟩ := mem_map.mp hy
        exact hfailed next hnext y hok
      rw [settle_failed _ _ _ _ _ _ hnone]
      constructor
      · intro hmultiple
        refine Or.inr ⟨hfailed, ?_⟩
        cases hcalls : callsOf that stack source item with
        | nil =>
          rw [hcalls] at hmultiple
          obtain ⟨_, h, -⟩ := hmultiple
          cases h
        | cons first rest =>
          rw [hcalls] at hmultiple
          exact ⟨first, rest, rfl, hmultiple⟩
      · rintro (⟨y, _, -, ⟨next, hnext, hok⟩, -⟩ | ⟨-, first, rest, hcalls, hfirst⟩)
        · exact absurd hok (hfailed next hnext y)
        · rw [hcalls]
          exact hfirst
    · push Not at hfailed
      obtain ⟨next, hnext, y, hy⟩ := hfailed
      have hmem : .ok y ∈ (callsOf that stack source item).map
          (run that destinationNodeName usedMethodName) :=
        mem_map.mpr ⟨next, hnext, hy⟩
      constructor
      · intro hmultiple
        refine Or.inl ?_
        by_contra hsame
        refine not_isMultiple_ok y ?_
        rw [← (settle_eq_ok that _ source _ index _).mpr ⟨hmem, ?_⟩]
        · exact hmultiple
        · intro z hz
          obtain ⟨other, hother, hz⟩ := mem_map.mp hz
          by_contra hne
          exact hsame ⟨z, y, hne, ⟨other, hother, hz⟩, next, hnext, hy⟩
      · rintro (⟨y, z, hne, ⟨one, hone, hy⟩, two, htwo, hz⟩ | ⟨hnone, -⟩)
        · rw [settle_conflict that _ _ _ _ _ (mem_map.mpr ⟨one, hone, hy⟩)
            (mem_map.mpr ⟨two, htwo, hz⟩) hne]
          exact isMultiple_multiple ..
        · exact absurd hy (hnone next hnext y)

end

theorem cases_of_call (call : Call) :
    (∃ outputData, Arrives that destinationNodeName call outputData)
      ∨ (∃ stack source item, Reads that destinationNodeName call stack source item)
      ∨ (∃ thrown, run that destinationNodeName usedMethodName call
            = .error thrown ∧ ¬ IsMultiple (I := I) (.error thrown))
          ∧ (∀ outputData, ¬ Arrives that destinationNodeName call outputData)
          ∧ ∀ stack source item, ¬ Reads that destinationNodeName call stack source item := by
  by_cases harrives : ∃ outputData, Arrives that destinationNodeName call outputData
  · exact Or.inl harrives
  by_cases hreads : ∃ stack source item, Reads that destinationNodeName call stack source item
  · exact Or.inr (Or.inl hreads)
  push Not at harrives hreads
  refine Or.inr (Or.inr ⟨?_, harrives, hreads⟩)
  by_cases hstack : call.stack = 0
  · refine ⟨_, run_zero that _ _ hstack, ?_⟩
    rintro ⟨_, h, -⟩
    cases h
  cases hsource : call.sourceData with
  | none =>
    exact ⟨_, run_noSource that _ _ hstack hsource, not_isMultiple_error "paired_item_no_info"
        (type_createExpressionError ..) (by decide)⟩
  | some source =>
    cases houtput : outputOf (getTaskData that source) source with
    | none =>
      exact ⟨_, run_noOutput that _ _ hstack hsource houtput,
        not_isMultiple_error "internal" (type_createExpressionError ..) (by decide)⟩
    | some outputData =>
      have hfinds : Finds that call source outputData := ⟨hstack, hsource, houtput⟩
      by_cases hdest : source.previousNode = destinationNodeName
      · exact absurd ⟨source, hfinds, hdest⟩ (harrives outputData)
      · cases hitem : elementAt outputData call.item with
        | none =>
          refine ⟨_, run_noItem that _ _ hfinds hdest hitem, ?_⟩
          rintro ⟨_, h, -⟩
          cases h
        | some item =>
          obtain ⟨stack, hsucc⟩ := Nat.exists_eq_succ_of_ne_zero hstack
          exact absurd ⟨hsucc, hdest, outputData, hfinds, hitem⟩ (hreads stack source item)

theorem endsAt_of_run {y : Option I}
    (hrun : run that destinationNodeName usedMethodName call = .ok y) :
    (∀ x, y = some x → EndsAt that destinationNodeName call x)
      ∧ (y = none → Strays that destinationNodeName call) := by
  generalize hstack : call.stack = bound
  induction bound using Nat.strongRecOn generalizing call with
  | ind bound ih =>
    obtain ⟨outputData, harrives⟩ | ⟨stack, source, item, hreads⟩
      | ⟨⟨thrown, herror, -⟩, -⟩ := cases_of_call that destinationNodeName usedMethodName call
    · obtain ⟨hsmall, rfl⟩ :=
        (run_of_arrives_eq_ok that _ usedMethodName harrives).mp hrun
      refine ⟨fun x hx => .here harrives hx, fun hnone =>
        .here harrives ?_⟩
      by_contra hneg
      obtain ⟨x, hx⟩ := elementAt_isSome (not_lt.mp hneg) hsmall
      rw [hnone] at hx
      cases hx
    · obtain ⟨⟨next, hnext, hok⟩, -⟩ :=
        (run_of_reads_eq_ok that _ usedMethodName hreads).mp hrun
      have hmakes : Makes that destinationNodeName call next :=
        (makes_iff that _).mpr ⟨stack, source, item, hreads, hnext⟩
      have hrefers := references_of_makes that _ hmakes
      obtain ⟨hends, hstrays⟩ := ih next.stack (hstack ▸ stack_lt that _ hrefers) hok rfl
      exact ⟨fun x hx => .through hrefers (hends x hx),
        fun hnone => .through hmakes (hstrays hnone)⟩
    · rw [herror] at hrun
      cases hrun

theorem run_eq_none_of_strays (hstrays : Strays that destinationNodeName call)
    (hno : ∀ x, ¬ EndsAt that destinationNodeName call x) :
    run that destinationNodeName usedMethodName call = .ok none := by
  induction hstrays with
  | here harrives hneg =>
    refine (run_of_arrives_eq_ok that _ usedMethodName harrives).mpr ⟨by omega, ?_⟩
    rw [elementAt, if_neg (by omega)]
  | @through call next hmakes _ ih =>
    obtain ⟨stack, source, item, hreads, hnext⟩ := (makes_iff that _).mp hmakes
    have hfrom : ∀ other ∈ callsOf that stack source item, ∀ x,
        ¬ EndsAt that destinationNodeName other x :=
      fun other hother x hx => hno x (.through
        (references_of_makes that _ ((makes_iff that _).mpr
          ⟨stack, source, item, hreads, hother⟩)) hx)
    refine (run_of_reads_eq_ok that _ usedMethodName hreads).mpr
      ⟨⟨next, hnext, ih (hfrom next hnext)⟩, fun other hother z hz => ?_⟩
    cases z with
    | none => rfl
    | some x =>
      exact absurd ((endsAt_of_run that _ usedMethodName hz).1 x rfl) (hfrom other hother x)

theorem endsAt_of_isMultiple
    (hmultiple : IsMultiple (run that destinationNodeName usedMethodName call)) :
    ∃ x, EndsAt that destinationNodeName call x := by
  generalize hstack : call.stack = bound
  induction bound using Nat.strongRecOn generalizing call with
  | ind bound ih =>
    obtain ⟨outputData, harrives⟩ | ⟨stack, source, item, hreads⟩
      | ⟨⟨thrown, herror, hthrown⟩, -⟩ := cases_of_call that destinationNodeName usedMethodName call
    · obtain ⟨hrun, -⟩ | ⟨⟨error, hrun, htype⟩, -⟩ :=
        run_of_arrives that _ usedMethodName harrives
      · rw [hrun] at hmultiple
        exact absurd hmultiple (not_isMultiple_ok _)
      · rw [hrun] at hmultiple
        exact absurd hmultiple (not_isMultiple_error _ htype (by decide))
    · have hrefers : ∀ next ∈ callsOf that stack source item,
          References that destinationNodeName call next :=
        fun next hnext => references_of_makes that _
          ((makes_iff that _).mpr ⟨stack, source, item, hreads, hnext⟩)
      obtain ⟨y, z, hne, ⟨one, hone, hy⟩, two, htwo, hz⟩
        | ⟨-, first, rest, hcalls, hfirst⟩ :=
        (isMultiple_of_reads that _ usedMethodName hreads).mp hmultiple
      · cases y with
        | some x =>
          exact ⟨x, .through (hrefers one hone) ((endsAt_of_run that _ usedMethodName hy).1 x rfl)⟩
        | none =>
          cases z with
          | some x =>
            exact ⟨x, .through (hrefers two htwo)
              ((endsAt_of_run that _ usedMethodName hz).1 x rfl)⟩
          | none => exact absurd rfl hne
      · have hmem : first ∈ callsOf that stack source item :=
          hcalls ▸ mem_cons_self ..
        have hrefer := hrefers first hmem
        obtain ⟨x, hx⟩ := ih first.stack (hstack ▸ stack_lt that _ hrefer) hfirst rfl
        exact ⟨x, .through hrefer hx⟩
    · rw [herror] at hmultiple
      exact absurd hmultiple hthrown

end

/-! ## The only end -/

section

variable [DecidableEq I]

/-- A call gives an item if and only if its chains end at that item only, and
    reports many matches if they end at two. -/
structure Right (call : Call) : Prop where
  only : ∀ x, run that destinationNodeName usedMethodName call = .ok (some x)
    ↔ OnlyAt that destinationNodeName call x
  several : Ambiguous that destinationNodeName call →
    IsMultiple (run that destinationNodeName usedMethodName call)

variable {usedMethodName}

variable {call : Call}

theorem Right.isMultiple_iff (hright : Right that destinationNodeName usedMethodName call) :
    IsMultiple (run that destinationNodeName usedMethodName call)
      ↔ Ambiguous that destinationNodeName call := by
  refine ⟨fun hmultiple => ?_, hright.several⟩
  obtain ⟨x, hx⟩ := endsAt_of_isMultiple that _ usedMethodName hmultiple
  refine (onlyAt_or_ambiguous that _ hx).resolve_left fun honly => ?_
  rw [(hright.only x).mpr honly] at hmultiple
  exact not_isMultiple_ok _ hmultiple

theorem Right.run_eq_ok
    (hright : Right that destinationNodeName usedMethodName call) (y : Option I) :
    run that destinationNodeName usedMethodName call = .ok y
      ↔ Worth that destinationNodeName call y := by
  cases y with
  | some x => exact hright.only x
  | none =>
    refine ⟨fun hrun => ⟨fun x hx => ?_, (endsAt_of_run that _ usedMethodName hrun).2 rfl⟩,
      fun hworth => run_eq_none_of_strays that _ _ hworth.2 hworth.1⟩
    obtain honly | hseveral := onlyAt_or_ambiguous that _ hx
    · cases hrun.symm.trans ((hright.only x).mpr honly)
    · have hmultiple := hright.several hseveral
      rw [hrun] at hmultiple
      exact not_isMultiple_ok _ hmultiple

theorem right_of_arrives {outputData : List I}
    (harrives : Arrives that destinationNodeName call outputData) :
    Right that destinationNodeName usedMethodName call := by
  refine ⟨fun x => ?_, ?_⟩
  · rw [run_of_arrives_eq_ok that _ _ harrives, OnlyAt, endsAt_iff_of_arrives that _ harrives]
    constructor
    · rintro ⟨-, hx⟩
      refine ⟨hx.symm, fun y hy => ?_⟩
      rw [endsAt_iff_of_arrives that _ harrives, ← hx] at hy
      exact (Option.some.inj hy).symm
    · rintro ⟨hx, -⟩
      refine ⟨?_, hx.symm⟩
      rw [elementAt] at hx
      split at hx
      · obtain ⟨hbound, -⟩ := List.getElem?_eq_some_iff.mp hx
        omega
      · cases hx
  · rintro ⟨x, y, hx, hy, hne⟩
    rw [endsAt_iff_of_arrives that _ harrives] at hx hy
    exact absurd (Option.some.inj (hx.symm.trans hy)) hne

theorem right_of_error {thrown : Thrown}
    (herror : run that destinationNodeName usedMethodName call = .error thrown)
    (harrives : ∀ outputData, ¬ Arrives that destinationNodeName call outputData)
    (hreads : ∀ stack source item, ¬ Reads that destinationNodeName call stack source item) :
    Right that destinationNodeName usedMethodName call := by
  have hno : ∀ x, ¬ EndsAt that destinationNodeName call x := by
    intro x hends
    cases hends with
    | here h _ => exact harrives _ h
    | through h _ =>
      obtain ⟨stack, source, item, h, -⟩ := h
      exact hreads _ _ _ h
  refine ⟨fun x => ⟨fun hrun => ?_, fun honly => absurd honly.1 (hno x)⟩, ?_⟩
  · rw [herror] at hrun
    cases hrun
  · rintro ⟨x, -, hx, -, -⟩
    exact absurd hx (hno x)

section

variable {call : Call} {stack : Nat} {source : ISourceData} {item : I}
  (hreads : Reads that destinationNodeName call stack source item)
  (hmade : ∀ next ∈ callsOf that stack source item,
    Right that destinationNodeName usedMethodName next)
include hreads hmade

theorem run_eq_ok_iff_worth {y : Option I} :
    run that destinationNodeName usedMethodName call = .ok y
      ↔ (∃ next ∈ callsOf that stack source item, Worth that destinationNodeName next y)
        ∧ ∀ next ∈ callsOf that stack source item, ∀ z,
            Worth that destinationNodeName next z → z = y := by
  rw [run_of_reads_eq_ok that _ _ hreads]
  constructor
  · rintro ⟨⟨next, hnext, hy⟩, hall⟩
    exact ⟨⟨next, hnext, ((hmade next hnext).run_eq_ok that _ y).mp hy⟩,
      fun other hother z hz => hall other hother z
        (((hmade other hother).run_eq_ok that _ z).mpr hz)⟩
  · rintro ⟨⟨next, hnext, hy⟩, hall⟩
    exact ⟨⟨next, hnext, ((hmade next hnext).run_eq_ok that _ y).mpr hy⟩,
      fun other hother z hz => hall other hother z
        (((hmade other hother).run_eq_ok that _ z).mp hz)⟩

theorem isMultiple_iff_worth :
    IsMultiple (run that destinationNodeName usedMethodName call)
      ↔ (∃ y z, y ≠ z
          ∧ (∃ next ∈ callsOf that stack source item, Worth that destinationNodeName next y)
          ∧ ∃ next ∈ callsOf that stack source item, Worth that destinationNodeName next z)
        ∨ (∀ next ∈ callsOf that stack source item, ∀ y, ¬ Worth that destinationNodeName next y)
          ∧ ∃ first rest, callsOf that stack source item = first :: rest
              ∧ Ambiguous that destinationNodeName first := by
  have hsome : ∀ y, (∃ next ∈ callsOf that stack source item,
        run that destinationNodeName usedMethodName next = .ok y)
      ↔ ∃ next ∈ callsOf that stack source item, Worth that destinationNodeName next y := fun y =>
    exists_congr fun next => and_congr_right fun hnext =>
      (hmade next hnext).run_eq_ok that _ y
  have hnone : (∀ next ∈ callsOf that stack source item, ∀ y,
        run that destinationNodeName usedMethodName next ≠ .ok y)
      ↔ ∀ next ∈ callsOf that stack source item, ∀ y, ¬ Worth that destinationNodeName next y :=
    forall_congr' fun next => forall_congr' fun hnext =>
      forall_congr' fun y => not_congr ((hmade next hnext).run_eq_ok that _ y)
  have hfirst : (∃ first rest, callsOf that stack source item = first :: rest
        ∧ IsMultiple (run that destinationNodeName usedMethodName first))
      ↔ ∃ first rest, callsOf that stack source item = first :: rest
          ∧ Ambiguous that destinationNodeName first :=
    exists_congr fun first => exists_congr fun rest =>
      and_congr_right fun hcalls =>
        (hmade first (hcalls ▸ mem_cons_self ..)).isMultiple_iff that _
  rw [isMultiple_of_reads that _ _ hreads, hnone, hfirst]
  simp [hsome]

/-- **STEP**: an item is right if its branches are and tell what its chains
    do. -/
theorem right_of_branches (hbranches : Branches that destinationNodeName call) :
    Right that destinationNodeName usedMethodName call := by
  have hseveral : Ambiguous that destinationNodeName call →
      IsMultiple (run that destinationNodeName usedMethodName call) :=
    fun h => (isMultiple_iff_worth that _ hreads hmade).mpr
      (hbranches.several stack source item hreads h)
  refine ⟨fun x => ⟨fun hrun => ?_, fun honly => ?_⟩, hseveral⟩
  · refine (onlyAt_or_ambiguous that _ ((endsAt_of_run that _ usedMethodName
      hrun).1 x rfl)).resolve_right fun h => ?_
    have hmultiple := hseveral h
    rw [hrun] at hmultiple
    exact not_isMultiple_ok _ hmultiple
  · obtain ⟨hsome, hnone⟩ :=
      hbranches.single stack source item hreads x honly
    refine (run_eq_ok_iff_worth that _ hreads hmade).mpr ⟨hsome, fun next hnext z hz => ?_⟩
    cases z with
    | none => exact absurd hz (hnone next hnext)
    | some y => rw [honly.2 y (endsAt_of_worth that _ hreads hnext hz)]

theorem branches_of_right (hright : Right that destinationNodeName usedMethodName call) :
    Branches that destinationNodeName call := by
  constructor
  · intro _ _ _ hreads' x honly
    obtain ⟨rfl, rfl, rfl⟩ := reads_unique that _ hreads hreads'
    obtain ⟨hsome, hall⟩ := (run_eq_ok_iff_worth that _ hreads hmade).mp ((hright.only x).mpr honly)
    refine ⟨hsome, fun next hnext hnone => ?_⟩
    cases hall next hnext none hnone
  · intro _ _ _ hreads' hseveral
    obtain ⟨rfl, rfl, rfl⟩ := reads_unique that _ hreads hreads'
    exact (isMultiple_iff_worth that _ hreads hmade).mp (hright.several hseveral)

end

/-- **UNAMBIGUOUS**: a search and every search from an item it leads back to
    gives the only end of the chains, and reports two, if and only if the
    branches of each of these items tell what its chains do. -/
theorem right_iff (call : Call) :
    (∀ next, ReflTransGen (References that destinationNodeName) call next →
        Right that destinationNodeName usedMethodName next)
      ↔ ∀ next, ReflTransGen (References that destinationNodeName) call next →
          Branches that destinationNodeName next := by
  have hcalls : ∀ {next stack source item}, Reads that destinationNodeName next stack source item →
      ∀ made ∈ callsOf that stack source item, References that destinationNodeName next made :=
    fun hreads made hmade => references_of_makes that _
      ((makes_iff that _).mpr ⟨_, _, _, hreads, hmade⟩)
  constructor
  · intro hright next hnext
    by_cases hreads : ∃ stack source item, Reads that destinationNodeName next stack source item
    · obtain ⟨stack, source, item, hreads⟩ := hreads
      exact branches_of_right that _ hreads
        (fun made hmade =>
          hright made (hnext.tail (hcalls hreads made hmade)))
        (hright next hnext)
    · push Not at hreads
      exact ⟨fun stack source item h => absurd h (hreads stack source item),
        fun stack source item h => absurd h (hreads stack source item)⟩
  · intro hbranches next hnext
    -- by induction on the room that is left
    generalize hstack : next.stack = bound
    induction bound using Nat.strongRecOn generalizing next with
    | ind bound ih =>
      obtain ⟨outputData, harrives⟩ | ⟨stack, source, item, hreads⟩
        | ⟨⟨thrown, herror, -⟩, harrives, hreads⟩ := cases_of_call that
          destinationNodeName usedMethodName next
      · exact right_of_arrives that _ harrives
      · refine right_of_branches that _ hreads (fun made hmade => ?_) (hbranches next hnext)
        have hrefers := hcalls hreads made hmade
        exact ih made.stack (hstack ▸ stack_lt that _ hrefers) made (hnext.tail hrefers) rfl
      · exact right_of_error that _ herror harrives hreads

/-- Two items of `Start`; the item of `Merge` is from both, the one of `Set`
    from the first, and the one of `Code` from `Merge` and from `Set`. -/
def hiddenBranch : WorkflowDataProxy Nat where
  runData := ⟨[("Start", [⟨some [some [0, 1]], []⟩]),
    ("Merge", [⟨some [some [2]], [some ⟨"Start", none, none⟩]⟩]),
    ("Set", [⟨some [some [3]], [some ⟨"Start", none, none⟩]⟩]),
    ("Code", [⟨some [some [4]],
      [some ⟨"Merge", none, none⟩, some ⟨"Set", none, none⟩]⟩])], by decide⟩
  getPinDataIfManualExecution := fun _ => none
  isScriptingNode := fun _ => false
  activeNodeName := "Output"
  pairedItem := fun item =>
    if item = 2 then .many [.number 0, .number 1]
    else if item = 3 then .one (.number 0)
    else if item = 4 then
      .many [.data ⟨0, some 0, none⟩, .data ⟨0, some 1, none⟩]
    else .missing

def sourceOf (node : String) : ISourceData := ⟨node, none, none⟩

/-- The search for the item of `Code` gives one of the two items, as the
    branch with both is an error. -/
theorem not_right_hiddenBranch :
    ¬ Right hiddenBranch "Start" "$getPairedItem"
        ⟨1000, some (sourceOf "Code"), .number 0, none⟩ := by
  intro hright
  have hrun : run hiddenBranch "Start" "$getPairedItem"
      ⟨1000, some (sourceOf "Code"), .number 0, none⟩ = .ok (some 0) := by
    decide +kernel
  have hcode : Reads hiddenBranch "Start"
      ⟨1000, some (sourceOf "Code"), .number 0, none⟩ 999 (sourceOf "Code") 4 :=
    ⟨rfl, by decide, [4], ⟨by decide, rfl, by decide +kernel⟩, rfl⟩
  have hmerge : Reads hiddenBranch "Start"
      (nextCall hiddenBranch 999 (sourceOf "Code") ⟨0, some 0, none⟩) 998 (sourceOf "Merge") 2 :=
    ⟨rfl, by decide, [2], ⟨by decide, by decide +kernel, by decide +kernel⟩,
      rfl⟩
  have hstart : Arrives hiddenBranch "Start"
      (nextCall hiddenBranch 998 (sourceOf "Merge") ⟨1, none, none⟩) [0, 1] :=
    ⟨sourceOf "Start", ⟨by decide, by decide +kernel, by decide +kernel⟩, rfl⟩
  have hends : EndsAt hiddenBranch "Start" ⟨1000, some (sourceOf "Code"), .number 0, none⟩ 1 :=
    .through ⟨999, sourceOf "Code", 4, hcode, ⟨0, some 0, none⟩, by decide,
        rfl⟩
      (.through ⟨998, sourceOf "Merge", 2, hmerge, ⟨1, none, none⟩, by decide,
        rfl⟩ (.here hstart rfl))
  cases ((hright.only 0).mp hrun).2 1 hends

end

end N8nItemLineage
