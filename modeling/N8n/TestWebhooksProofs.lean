import Mathlib.Data.List.Infix
import N8n.DirectedGraphProofs

/-! # Test webhooks — what a call that fails leaves behind

    `needsWebhook` arms a timer and then registers the webhooks one by one.
    Only what happens inside the `try` is taken back, and even there the
    timer is not: it is dropped from `timeouts`, and still runs.  The check
    for a path that is taken asks for registrations that are no test
    webhooks, and every registration is one.

    So a call is safe when it ends before the timer or registers all of its
    webhooks under keys of its own (`safe_iff`), and a run is when all its
    calls are. -/

namespace N8nTestWebhooks

open N8nRun N8nOrderedMap List
open N8nDirectedGraph (objectPrototype)

abbrev WorkflowId := String
abbrev UserId := String

/-- Timers are numbered in the order they are armed. -/
abbrev TimerId := Nat

/-! ## Data -/

/-- `IWebhookData`; an id that is empty counts as none.  The type of the
    node comes with it. -/
structure IWebhookData where
  node : String
  nodeType : String
  httpMethod : String
  path : String
  webhookId : Option String
  restartWebhook : Bool
  workflowId : WorkflowId
  userId : Option UserId
  isTest : Bool

/-- A registration.  `call` is its history: the timer of the call that made
    it. -/
structure TestWebhookRegistration where
  pushRef : Option String
  workflowEntityId : WorkflowId
  webhook : IWebhookData
  call : TimerId

/-- A timer that runs, with the workflow it cancels. -/
structure Timer where
  id : TimerId
  workflowId : WorkflowId
deriving DecidableEq

/-- The hash in the cache, the timers that run, and `timeouts`. -/
structure TestWebhooks where
  registrations : OrderedMap String TestWebhookRegistration
  timers : List Timer
  nextTimer : TimerId
  timeouts : OrderedMap String TimerId

inductive NeedsWebhookError where
  | workflowMissingId
  | singleWebhookTrigger (nodeName : String)
  | webhookPathTaken (nodeName : String)
  /-- what the cache or the service has thrown -/
  | other
deriving DecidableEq

/-- What the cache and the service do with one webhook. -/
inductive Outcome where
  | ok
  /-- the registration cannot be looked up -/
  | getFails
  /-- the registration is not stored -/
  | registerFails
  /-- the cache drops the hash, which is too big -/
  | registerDrops
  /-- the webhook cannot be created at the service -/
  | createFails
  /-- the second registration is not stored -/
  | updateFails
  | updateDrops
deriving DecidableEq

/-- A webhook of the workflow, and what is done with it. -/
structure Attempt where
  webhook : IWebhookData
  outcome : Outcome

/-- The options of `needsWebhook`: of the run data the names of the nodes,
    of the trigger its name and whether it has data.  `attempts` are the
    webhooks of the workflow; taking webhooks back stops after
    `deactivateFails` of them, if at all. -/
structure Options where
  userId : UserId
  workflowId : WorkflowId
  runData : Option (List String)
  pushRef : Option String
  triggerToStartFrom : Option (String × Bool)
  workflowIsActive : Bool
  attempts : List Attempt
  deactivateFails : Option Nat

/-! ## Keys -/

def removeTrailingSlash (path : String) : String :=
  if path.toList.getLast? = some '/' then
    String.ofList path.toList.dropLast
  else path

/-- `path.slice(path.indexOf('/') + 1)` -/
def cutFirstSegment (path : List Char) : List Char :=
  if '/' ∈ path then (path.dropWhile (· ≠ '/')).tail else path

def toKey (webhook : IWebhookData) : String :=
  match webhook.webhookId.filter (· ≠ "") with
  | none => webhook.httpMethod ++ "|" ++ webhook.path
  | some webhookId =>
    let path := webhook.path.toList
    let path := if webhookId.toList.isPrefixOf path then
        cutFirstSegment path
      else path
    webhook.httpMethod ++ "|" ++ webhookId ++ "|" ++ toString (path.splitOn '/').length

/-! ## Registering and taking back -/

namespace TestWebhooks

/-- A process that has started with an empty cache. -/
def start : TestWebhooks :=
  { registrations := .empty, timers := [], nextTimer := 0
    timeouts := .empty }

def register (s : TestWebhooks) (r : TestWebhookRegistration) : TestWebhooks :=
  { s with registrations := s.registrations.set (toKey r.webhook) r }

/-- The cache has no hash any more. -/
def dropHash (s : TestWebhooks) : TestWebhooks :=
  { s with registrations := .empty }

def deregister (s : TestWebhooks) (webhook : IWebhookData) : TestWebhooks :=
  { s with registrations := s.registrations.delete (toKey webhook) }

/-- `deactivateWebhooks`: the webhooks of the workflow, one by one; whether
    it goes through. -/
def deactivateWebhooks (s : TestWebhooks) (workflowId : WorkflowId)
    (fails : Option Nat) : TestWebhooks × Bool :=
  let webhooks := ((s.registrations.entries.map fun p =>
    p.2.webhook).filter fun w => w.workflowId = workflowId)
  match fails with
  | none => (webhooks.foldl deregister s, true)
  | some n =>
    if n < webhooks.length then ((webhooks.take n).foldl deregister s, false)
    else (webhooks.foldl deregister s, true)

/-- `clearTimeout` -/
def clearTimeout (s : TestWebhooks) (key : String) : TestWebhooks :=
  match s.timeouts.get? key with
  | none => s
  | some timer => { s with timers := s.timers.filter fun t => t.id ≠ timer }

/-- `cancelWebhook`; the webhooks are taken back once, and what that throws
    is lost. -/
def cancelWebhook (s : TestWebhooks) (workflowId : WorkflowId)
    (fails : Option Nat) : TestWebhooks :=
  let found := s.registrations.entries.filter fun p =>
    p.2.workflowEntityId = workflowId
  let s := found.foldl (fun s p => s.clearTimeout p.1) s
  if found.length = 0 then s else (s.deactivateWebhooks workflowId fails).1

/-! ## `needsWebhook` -/

/-- `webhook.node in runData`: an inherited name is in it, too. -/
def inRunData (runData : Option (List String)) (node : String) : Bool :=
  runData.any fun nodes => nodes.contains node
    || objectPrototype.contains node

/-- The webhook is one somebody else listens for. -/
def isTaken (o : Options) (webhook : IWebhookData)
    (registrationByKey : Option TestWebhookRegistration) : Bool :=
  registrationByKey.any fun r =>
    (webhook.webhookId.filter (· ≠ "")).isNone && !r.webhook.isTest
      && r.webhook.userId ≠ some o.userId && r.webhook.workflowId ≠ o.workflowId

def registrationOf (o : Options) (call : TimerId) (webhook : IWebhookData) :
    TestWebhookRegistration :=
  { pushRef := o.pushRef, workflowEntityId := o.workflowId
    webhook := { webhook with
      path := removeTrailingSlash webhook.path
      workflowId := o.workflowId
      userId := some o.userId
      isTest := true }
    call }

/-- The `try` block: the two registrations, and whether it throws. -/
def tryRegister (s : TestWebhooks) (r : TestWebhookRegistration) :
    Outcome → TestWebhooks × Bool
  | .ok => ((s.register r).register r, false)
  | .getFails => (s, true)
  | .registerFails => (s, true)
  | .registerDrops => (s.dropHash, true)
  | .createFails => (s.register r, true)
  | .updateFails => (s.register r, true)
  | .updateDrops => ((s.register r).dropHash, true)

/-- The loop of `needsWebhook`, with the timer `timeout`. -/
def registerAll (o : Options) (timeout : TimerId) :
    List Attempt → TestWebhooks → TestWebhooks × Except NeedsWebhookError Bool
  | [], s => (s, .ok true)
  | a :: rest, s =>
    if a.outcome = .getFails then (s, .error .other)
    else
      -- The key of the path as it came, with its trailing slash.
      let key := toKey a.webhook
      let registrationByKey := s.registrations.get? key
      if inRunData o.runData a.webhook.node then (s, .ok false)
      else if isTaken o a.webhook registrationByKey then
        (s, .error (.webhookPathTaken a.webhook.node))
      else
        match s.tryRegister (registrationOf o timeout a.webhook) a.outcome with
        | (s, false) =>
          registerAll o timeout rest
            { s with timeouts := s.timeouts.set key timeout }
        | (s, true) =>
          match s.deactivateWebhooks o.workflowId o.deactivateFails with
          | (s, false) => (s, .error .other)
          | (s, true) => ({ s with timeouts := s.timeouts.delete key }, .error .other)

def singleWebhookTriggers : List String :=
  ["n8n-nodes-base.telegramTrigger", "n8n-nodes-base.slackTrigger",
    "n8n-nodes-base.facebookLeadAdsTrigger"]

/-- The webhooks the loop goes through. -/
def chosen (o : Options) : List Attempt :=
  match o.triggerToStartFrom with
  | none => o.attempts
  | some (name, _) => o.attempts.filter fun a => a.webhook.node = name

/-- What `needsWebhook` returns or throws before it arms the timer. -/
def beforeTimer (o : Options) : Option (Except NeedsWebhookError Bool) :=
  if o.workflowId = "" then some (.error .workflowMissingId)
  else if o.triggerToStartFrom.any Prod.snd then some (.ok false)
  else if !(chosen o).any (fun a => !a.webhook.restartWebhook) then
    some (.ok false)
  else if o.workflowIsActive then
    ((chosen o).find? fun a =>
      singleWebhookTriggers.contains a.webhook.nodeType).map
        fun a => .error (.singleWebhookTrigger a.webhook.node)
  else none

def needsWebhook (s : TestWebhooks) (o : Options) : TestWebhooks × Except NeedsWebhookError Bool :=
  match beforeTimer o with
  | some result => (s, result)
  | none =>
    let timeout := s.nextTimer
    registerAll o timeout (chosen o) { s with
      timers := s.timers ++ [{ id := timeout, workflowId := o.workflowId }]
      nextTimer := timeout + 1 }

/-! ## Runs -/

end TestWebhooks

/-- A call, a timer that fires, and a request to a test webhook; `fails` is
    how taking back the webhooks ends. -/
inductive Event where
  | needsWebhook (o : Options)
  | fire (timer : Timer) (fails : Option Nat)
  | received (key : String) (fails : Option Nat)

namespace TestWebhooks

/-- The end of `executeWebhook`. -/
def received (s : TestWebhooks) (key : String) (fails : Option Nat) : TestWebhooks :=
  match s.registrations.get? key with
  | none => s
  | some r => ((s.clearTimeout key).deactivateWebhooks r.workflowEntityId fails).1

def next (s : TestWebhooks) : Event → TestWebhooks
  | .needsWebhook o => (s.needsWebhook o).1
  | .fire timer fails =>
    { s with timers := s.timers.erase timer }.cancelWebhook timer.workflowId fails
  | .received key fails => s.received key fails

end TestWebhooks

open TestWebhooks

/-- Only a timer that runs fires. -/
def Enabled (s : TestWebhooks) : Event → Prop
  | .fire timer _ => timer ∈ s.timers
  | _ => True

def Step (s : TestWebhooks) (e : Event) (s' : TestWebhooks) : Prop := Enabled s e ∧ s' = s.next e

/-! ## The property and the condition -/

/-- The registrations of other users for other workflows stay, and of a call
    that throws or returns `false` neither a registration nor the timer is
    left. -/
def Safe (s : TestWebhooks) : Event → Prop
  | .needsWebhook o =>
    (∀ k r, s.registrations.get? k = some r → r.webhook.userId ≠ some o.userId →
      r.webhook.workflowId ≠ o.workflowId → (s.needsWebhook o).1.registrations.get? k = some r)
      ∧ ((s.needsWebhook o).2 ≠ .ok true →
        (∀ k r, (s.needsWebhook o).1.registrations.get? k = some r → r.call ≠ s.nextTimer)
        ∧ ∀ timer ∈ (s.needsWebhook o).1.timers, timer.id ≠ s.nextTimer)
  | _ => True

def storedKey (webhook : IWebhookData) : String :=
  toKey { webhook with path := removeTrailingSlash webhook.path }

/-- The condition: the call ends before it arms the timer, or all goes well
    with all of its webhooks, no node has run data, and nobody else listens
    under their keys. -/
def GoesWell (s : TestWebhooks) : Event → Prop
  | .needsWebhook o =>
    (beforeTimer o).isSome = true
      ∨ ∀ a ∈ chosen o, a.outcome = .ok
        ∧ inRunData o.runData a.webhook.node = false
        ∧ ∀ r, s.registrations.get? (storedKey a.webhook) = some r →
          r.webhook.userId = some o.userId ∨ r.webhook.workflowId = o.workflowId
  | _ => True

/-! ## What is kept in any case -/

/-- Every registration is a test webhook, and what calls have left is of
    calls that were made. -/
structure Sound (s : TestWebhooks) : Prop where
  isTest : ∀ k r, s.registrations.get? k = some r → r.webhook.isTest = true
  made : ∀ k r, s.registrations.get? k = some r → r.call < s.nextTimer
  armed : ∀ timer ∈ s.timers, timer.id < s.nextTimer

theorem Sound.start : Sound .start where
  isTest := fun k r h => by cases h
  made := fun k r h => by cases h
  armed := fun timer h => absurd h not_mem_nil

/-- Registrations and timers are only taken away. -/
structure Shrinks (s s' : TestWebhooks) : Prop where
  registrations : ∀ k r, s'.registrations.get? k = some r → s.registrations.get? k = some r
  timers : ∀ timer ∈ s'.timers, timer ∈ s.timers
  nextTimer : s'.nextTimer = s.nextTimer

theorem Shrinks.refl (s : TestWebhooks) : Shrinks s s := ⟨fun _ _ h => h, fun _ h => h, rfl⟩

variable {s : TestWebhooks}

theorem Shrinks.trans {t u : TestWebhooks} (h : Shrinks s t) (h' : Shrinks t u) : Shrinks s u where
  registrations := fun k r hr => h.registrations k r (h'.registrations k r hr)
  timers := fun timer ht => h.timers timer (h'.timers timer ht)
  nextTimer := h'.nextTimer.trans h.nextTimer

theorem Sound.shrinks {s' : TestWebhooks} (hs : Sound s) (h : Shrinks s s') : Sound s' where
  isTest := fun k r hr => hs.isTest k r (h.registrations k r hr)
  made := fun k r hr => by
    rw [h.nextTimer]
    exact hs.made k r (h.registrations k r hr)
  armed := fun timer ht => by
    rw [h.nextTimer]
    exact hs.armed timer (h.timers timer ht)

section

variable (s : TestWebhooks)

theorem shrinks_deregister (webhook : IWebhookData) :
    Shrinks s (s.deregister webhook) where
  registrations := fun k r hr => by
    rw [deregister, OrderedMap.get?_delete] at hr
    split at hr
    · cases hr
    · exact hr
  timers := fun _ h => h
  nextTimer := rfl

theorem shrinks_foldl_deregister (webhooks : List IWebhookData) :
    Shrinks s (webhooks.foldl deregister s) := by
  induction webhooks generalizing s with
  | nil => exact .refl s
  | cons webhook rest ih => exact (shrinks_deregister s webhook).trans (ih _)

theorem shrinks_deactivateWebhooks (workflowId : WorkflowId) (fails : Option Nat) :
    Shrinks s (s.deactivateWebhooks workflowId fails).1 := by
  unfold deactivateWebhooks
  dsimp only
  split
  · exact shrinks_foldl_deregister s _
  · split
    · exact shrinks_foldl_deregister s _
    · exact shrinks_foldl_deregister s _

theorem shrinks_dropHash : Shrinks s s.dropHash where
  registrations := fun k r hr => by cases hr
  timers := fun _ h => h
  nextTimer := rfl

theorem shrinks_clearTimeout (key : String) : Shrinks s (s.clearTimeout key) := by
  rw [TestWebhooks.clearTimeout]
  split
  · exact .refl s
  · exact ⟨fun _ _ h => h, fun _ h => (mem_filter.mp h).1, rfl⟩

theorem shrinks_cancelWebhook (workflowId : WorkflowId) (fails : Option Nat) :
    Shrinks s (s.cancelWebhook workflowId fails) := by
  have hclear : ∀ (l : List (String × TestWebhookRegistration)) (s : TestWebhooks),
      Shrinks s (l.foldl (fun s p => s.clearTimeout p.1) s) := by
    intro l
    induction l with
    | nil => exact .refl
    | cons p l ih => exact fun s => (shrinks_clearTimeout s p.1).trans (ih _)
  rw [cancelWebhook]
  split
  · exact hclear _ s
  · exact (hclear _ s).trans (shrinks_deactivateWebhooks _ _ _)

theorem shrinks_received (key : String) (fails : Option Nat) :
    Shrinks s (s.received key fails) := by
  rw [TestWebhooks.received]
  split
  · exact .refl s
  · exact (shrinks_clearTimeout s key).trans (shrinks_deactivateWebhooks _ _ _)

end

/-! ## The loop -/

section

variable {o : Options} {timeout : TimerId}

theorem toKey_registrationOf (webhook : IWebhookData) :
    toKey (registrationOf o timeout webhook).webhook = storedKey webhook :=
  rfl

variable {s : TestWebhooks}

theorem Sound.register (h : Sound s) (webhook : IWebhookData) (htimeout : timeout < s.nextTimer) :
    Sound (s.register (registrationOf o timeout webhook)) where
  isTest := fun k r hr => by
    rw [TestWebhooks.register, OrderedMap.get?_set] at hr
    split at hr
    · cases hr
      rfl
    · exact h.isTest k r hr
  made := fun k r hr => by
    rw [TestWebhooks.register, OrderedMap.get?_set] at hr
    split at hr
    · cases hr
      exact htimeout
    · exact h.made k r hr
  armed := h.armed

theorem tryRegister_timers (s : TestWebhooks) (r : TestWebhookRegistration) (outcome : Outcome) :
    (s.tryRegister r outcome).1.timers = s.timers
      ∧ (s.tryRegister r outcome).1.nextTimer = s.nextTimer := by
  cases outcome <;> exact ⟨rfl, rfl⟩

theorem Sound.tryRegister (h : Sound s) (webhook : IWebhookData)
    (htimeout : timeout < s.nextTimer) (outcome : Outcome) :
    Sound (s.tryRegister (registrationOf o timeout webhook) outcome).1 := by
  have hone := h.register (o := o) webhook htimeout
  cases outcome with
  | ok => exact hone.register webhook htimeout
  | getFails => exact h
  | registerFails => exact h
  | registerDrops => exact h.shrinks (shrinks_dropHash s)
  | createFails => exact hone
  | updateFails => exact hone
  | updateDrops => exact hone.shrinks (shrinks_dropHash _)

theorem tryRegister_ok {r : TestWebhookRegistration}
    {outcome : Outcome} (h : (s.tryRegister r outcome).2 = false) :
    outcome = .ok := by
  cases outcome with
  | ok => rfl
  | _ => cases h

theorem deactivateWebhooks_timers (s : TestWebhooks)
    (workflowId : WorkflowId) (fails : Option Nat) :
    (s.deactivateWebhooks workflowId fails).1.timers = s.timers := by
  have hfold : ∀ (l : List IWebhookData) (s : TestWebhooks),
      (l.foldl deregister s).timers = s.timers := by
    intro l
    induction l with
    | nil => exact fun _ => rfl
    | cons webhook l ih => exact fun s => ih _
  unfold deactivateWebhooks
  dsimp only
  split
  · exact hfold _ s
  · split
    · exact hfold _ s
    · exact hfold _ s

/-- The state after a round that goes well. -/
def registered (o : Options) (timeout : TimerId) (s : TestWebhooks)
    (webhook : IWebhookData) : TestWebhooks :=
  { (s.tryRegister (registrationOf o timeout webhook) .ok).1 with
    timeouts := s.timeouts.set (toKey webhook) timeout }

variable (o timeout) in
/-- One round of the loop: it ends the call, or goes on after `ok`. -/
theorem registerAll_cons (a : Attempt) (rest : List Attempt) (s : TestWebhooks) :
    (∃ s' result, registerAll o timeout (a :: rest) s = (s', result)
        ∧ result ≠ .ok true ∧ s'.timers = s.timers
        ∧ (Sound s → timeout < s.nextTimer → Sound s'))
      ∨ (a.outcome = .ok ∧ inRunData o.runData a.webhook.node = false
        ∧ isTaken o a.webhook (s.registrations.get? (toKey a.webhook)) = false
        ∧ registerAll o timeout (a :: rest) s
          = registerAll o timeout rest (registered o timeout s a.webhook)) := by
  rw [registerAll]
  by_cases hget : a.outcome = .getFails
  · exact .inl ⟨s, _, if_pos hget, by simp, rfl, fun hs _ => hs⟩
  rw [if_neg hget]
  by_cases hdata : inRunData o.runData a.webhook.node
  · exact .inl ⟨s, _, if_pos hdata, by simp, rfl, fun hs _ => hs⟩
  rw [if_neg hdata]
  by_cases htaken : isTaken o a.webhook (s.registrations.get? (toKey a.webhook))
  · exact .inl ⟨s, _, if_pos htaken, by simp, rfl, fun hs _ => hs⟩
  rw [if_neg htaken]
  rcases htry : s.tryRegister (registrationOf o timeout a.webhook) a.outcome with ⟨t, _ | _⟩
  · have hok := tryRegister_ok (congrArg Prod.snd htry)
    rw [hok] at htry
    refine .inr ⟨hok, Bool.eq_false_iff.mpr hdata, Bool.eq_false_iff.mpr htaken, ?_⟩
    cases htry
    rfl
  · have htimers : t.timers = s.timers := by
      have h := (tryRegister_timers s (registrationOf o timeout a.webhook) a.outcome).1
      rw [htry] at h
      exact h
    have hsound : Sound s → timeout < s.nextTimer → Sound t := by
      intro hs htimeout
      have h := hs.tryRegister (o := o) a.webhook htimeout a.outcome
      rw [htry] at h
      exact h
    have hshrinks := shrinks_deactivateWebhooks t o.workflowId o.deactivateFails
    have hkept := deactivateWebhooks_timers t o.workflowId o.deactivateFails
    rcases hback : t.deactivateWebhooks o.workflowId o.deactivateFails with ⟨u, _ | _⟩
    all_goals
      rw [hback] at hshrinks hkept
      dsimp only at hshrinks hkept ⊢
      rw [hback]
    · exact .inl ⟨u, _, rfl, by simp, hkept.trans htimers,
        fun hs ht => (hsound hs ht).shrinks hshrinks⟩
    · refine .inl ⟨_, _, rfl, by simp, hkept.trans htimers, fun hs ht => ?_⟩
      have hu := (hsound hs ht).shrinks hshrinks
      exact ⟨hu.isTest, hu.made, hu.armed⟩

theorem Sound.registered (h : Sound s) (webhook : IWebhookData) (htimeout : timeout < s.nextTimer) :
    Sound (registered o timeout s webhook) := by
  have htry := h.tryRegister (o := o) webhook htimeout .ok
  exact ⟨htry.isTest, htry.made, htry.armed⟩

theorem registered_get? (s : TestWebhooks) (webhook : IWebhookData) (k : String) :
    (registered o timeout s webhook).registrations.get? k
      = if storedKey webhook = k then
          some (registrationOf o timeout webhook)
        else s.registrations.get? k := by
  change ((s.registrations.set _ _).set _ _).get? k = _
  rw [OrderedMap.get?_set, toKey_registrationOf]
  by_cases hk : storedKey webhook = k
  · rw [if_pos hk, if_pos hk]
  · rw [if_neg hk, if_neg hk, OrderedMap.get?_set, if_neg hk]

/-- **NO TIMER STOPS**: the loop leaves the timers as they are, however it
    ends. -/
theorem registerAll_timers (l : List Attempt) (s : TestWebhooks) :
    (registerAll o timeout l s).1.timers = s.timers := by
  induction l generalizing s with
  | nil => rfl
  | cons a rest ih =>
    rcases registerAll_cons o timeout a rest s with
      ⟨s', result, heq, -, htimers, -⟩ | ⟨-, -, -, heq⟩
    · rw [heq]
      exact htimers
    · rw [heq, ih]
      rfl

variable {l : List Attempt}

theorem Sound.registerAll (h : Sound s) (htimeout : timeout < s.nextTimer) :
    Sound (registerAll o timeout l s).1 := by
  induction l generalizing s with
  | nil => exact h
  | cons a rest ih =>
    rcases registerAll_cons o timeout a rest s with
      ⟨s', result, heq, -, -, hsound⟩ | ⟨-, -, -, heq⟩
    · rw [heq]
      exact hsound h htimeout
    · rw [heq]
      exact ih (h.registered a.webhook htimeout) htimeout

theorem all_of_registerAll_ok (h : (registerAll o timeout l s).2 = .ok true) :
    ∀ a ∈ l, a.outcome = .ok ∧ inRunData o.runData a.webhook.node = false := by
  induction l generalizing s with
  | nil => exact fun a ha => absurd ha not_mem_nil
  | cons a rest ih =>
    rcases registerAll_cons o timeout a rest s with
      ⟨s', result, heq, hresult, -, -⟩ | ⟨hok, hdata, -, heq⟩
    · rw [heq] at h
      exact absurd h hresult
    · rw [heq] at h
      intro x hx
      rcases mem_cons.mp hx with rfl | hx
      · exact ⟨hok, hdata⟩
      · exact ih h x hx

theorem isTaken_of_isTest (h : Sound s) (webhook : IWebhookData) (k : String) :
    isTaken o webhook (s.registrations.get? k) = false := by
  rw [isTaken]
  rcases hget : s.registrations.get? k with _ | r
  · rfl
  · simp [h.isTest k r hget]

theorem registerAll_cons_of_ok {a : Attempt} {rest : List Attempt} (h : Sound s)
    (hok : a.outcome = .ok) (hdata : inRunData o.runData a.webhook.node = false) :
    registerAll o timeout (a :: rest) s
      = registerAll o timeout rest (registered o timeout s a.webhook) := by
  rw [TestWebhooks.registerAll, hok]
  rw [if_neg (by decide), hdata, if_neg Bool.false_ne_true,
    isTaken_of_isTest h, if_neg Bool.false_ne_true]
  rfl

/-- **ALL REGISTERED**: where all goes well the call returns `true`, its
    webhooks are registered, and the other keys keep what they had. -/
theorem registerAll_of_all_ok (h : Sound s) (htimeout : timeout < s.nextTimer)
    (hall : ∀ a ∈ l, a.outcome = .ok ∧ inRunData o.runData a.webhook.node = false) :
    (registerAll o timeout l s).2 = .ok true
      ∧ (∀ k, (∀ a ∈ l, storedKey a.webhook ≠ k) →
        (registerAll o timeout l s).1.registrations.get? k = s.registrations.get? k)
      ∧ ∀ k, (∃ a ∈ l, storedKey a.webhook = k) →
        ∃ webhook, (registerAll o timeout l s).1.registrations.get? k
          = some (registrationOf o timeout webhook) := by
  induction l generalizing s with
  | nil =>
    exact ⟨rfl, fun _ _ => rfl, fun k ⟨a, ha, _⟩ =>
      absurd ha not_mem_nil⟩
  | cons a rest ih =>
    obtain ⟨⟨hok, hdata⟩, hrest⟩ := forall_mem_cons.mp hall
    rw [registerAll_cons_of_ok h hok hdata]
    obtain ⟨hresult, hothers, hown⟩ := ih (h.registered a.webhook htimeout) htimeout hrest
    refine ⟨hresult, fun k hk => ?_, fun k hk => ?_⟩
    · obtain ⟨hka, hkrest⟩ := forall_mem_cons.mp hk
      rw [hothers k hkrest, registered_get?, if_neg hka]
    · by_cases hlater : ∃ b ∈ rest, storedKey b.webhook = k
      · exact hown k hlater
      · have hka : storedKey a.webhook = k := by
          obtain ⟨b, hb, hkb⟩ := hk
          rcases mem_cons.mp hb with rfl | hb
          · exact hkb
          · exact absurd ⟨b, hb, hkb⟩ hlater
        have hkrest : ∀ b ∈ rest, storedKey b.webhook ≠ k := fun b hb hkb => hlater ⟨b, hb, hkb⟩
        refine ⟨a.webhook, ?_⟩
        rw [hothers k hkrest, registered_get?, if_pos hka]

end

/-! ## Every call -/

section

variable {s : TestWebhooks} {o : Options}

/-- The state in which the loop starts. -/
def withTimer (s : TestWebhooks) (o : Options) : TestWebhooks :=
  { s with
    timers := s.timers ++ [{ id := s.nextTimer, workflowId := o.workflowId }]
    nextTimer := s.nextTimer + 1 }

theorem Sound.armTimer (h : Sound s) (o : Options) : Sound (withTimer s o) where
  isTest := h.isTest
  made := fun k r hr => Nat.lt_succ_of_lt (h.made k r hr)
  armed := fun timer ht => by
    rcases mem_append.mp ht with ht | ht
    · exact Nat.lt_succ_of_lt (h.armed timer ht)
    · rw [mem_singleton.mp ht]
      exact Nat.lt_succ_self _

theorem needsWebhook_of_beforeTimer {result : Except NeedsWebhookError Bool}
    (h : beforeTimer o = some result) :
    s.needsWebhook o = (s, result) := by
  rw [needsWebhook, h]

theorem needsWebhook_of_none (h : beforeTimer o = none) :
    s.needsWebhook o = registerAll o s.nextTimer (chosen o) (withTimer s o) := by
  rw [needsWebhook, h]
  rfl

theorem Sound.needsWebhook (h : Sound s) (o : Options) : Sound (s.needsWebhook o).1 := by
  rcases hbefore : beforeTimer o with _ | result
  · rw [needsWebhook_of_none hbefore]
    exact (h.armTimer o).registerAll (Nat.lt_succ_self _)
  · rw [needsWebhook_of_beforeTimer hbefore]
    exact h

theorem safe_of_beforeTimer (h : Sound s) {result : Except NeedsWebhookError Bool}
    (hbefore : beforeTimer o = some result) :
    Safe s (.needsWebhook o) := by
  rw [Safe, needsWebhook_of_beforeTimer hbefore]
  exact ⟨fun k r hr _ _ => hr, fun _ =>
    ⟨fun k r hr => Nat.ne_of_lt (h.made k r hr), fun timer ht => Nat.ne_of_lt (h.armed timer ht)⟩⟩

theorem Safe.registerAll_ok (h : Safe s (.needsWebhook o)) (hbefore : beforeTimer o = none) :
    (registerAll o s.nextTimer (chosen o) (withTimer s o)).2 = .ok true := by
  obtain ⟨-, hfailed⟩ := h
  rw [needsWebhook_of_none hbefore] at hfailed
  by_contra hresult
  obtain ⟨-, htimers⟩ := hfailed hresult
  have harmed : { id := s.nextTimer, workflowId := o.workflowId }
      ∈ (registerAll o s.nextTimer (chosen o) (withTimer s o)).1.timers := by
    rw [registerAll_timers]
    exact mem_append_right _ (mem_singleton.mpr rfl)
  exact htimers _ harmed rfl

/-- **EVERY CALL**: it is safe exactly when it goes well. -/
theorem safe_iff (h : Sound s) (e : Event) : Safe s e ↔ GoesWell s e := by
  cases e with
  | fire timer fails => exact Iff.rfl
  | received key fails => exact Iff.rfl
  | needsWebhook o =>
    rcases hbefore : beforeTimer o with _ | result
    · constructor
      · intro hsafe
        have hall := all_of_registerAll_ok (hsafe.registerAll_ok hbefore)
        obtain ⟨-, -, hown⟩ := registerAll_of_all_ok (h.armTimer o)
          (Nat.lt_succ_self s.nextTimer) hall
        refine .inr fun a ha => ⟨(hall a ha).1, (hall a ha).2, fun r hr => ?_⟩
        by_contra hother
        rw [not_or] at hother
        have hkept := hsafe.1 _ r hr hother.1 hother.2
        obtain ⟨webhook, hnew⟩ := hown _ ⟨a, ha, rfl⟩
        rw [needsWebhook_of_none hbefore, hnew] at hkept
        cases hkept
        exact hother.1 rfl
      · rintro (hsome | hwell)
        · rw [hbefore] at hsome
          cases hsome
        · obtain ⟨hresult, hothers, -⟩ := registerAll_of_all_ok (h.armTimer o)
            (Nat.lt_succ_self s.nextTimer) fun a ha => ⟨(hwell a ha).1, (hwell a ha).2.1⟩
          rw [Safe, needsWebhook_of_none hbefore]
          refine ⟨fun k r hr huser hworkflow => ?_, fun hfailed => absurd hresult hfailed⟩
          rw [hothers k fun a ha hk => ?_]
          · exact hr
          · rcases (hwell a ha).2.2 r (hk ▸ hr) with hsame | hsame
            · exact huser hsame
            · exact hworkflow hsame
    · refine ⟨fun _ => .inl ?_, fun _ => safe_of_beforeTimer h hbefore⟩
      rw [hbefore]
      rfl

end

/-! ## Every run -/

theorem Sound.next (h : Sound s) (e : Event) : Sound (s.next e) := by
  cases e with
  | needsWebhook o => exact h.needsWebhook o
  | fire timer fails =>
    have herase : Shrinks s { s with timers := s.timers.erase timer } :=
      ⟨fun _ _ hr => hr, fun _ ht => mem_of_mem_erase ht, rfl⟩
    exact h.shrinks (herase.trans (shrinks_cancelWebhook _ _ _))
  | received key fails => exact h.shrinks (shrinks_received s key fails)

/-- **EVERY RUN**: its calls are safe exactly when they all go well. -/
theorem everyCall_safe_iff {path : List (Event × TestWebhooks)} (hrun : IsRun Step .start path) :
    EveryStep Safe .start path ↔ EveryStep GoesWell .start path := by
  refine everyStep_congr hrun Sound.start ?_ ?_
  · rintro s e s' h ⟨-, rfl⟩
    exact h.next e
  · intro s e s' h _
    exact safe_iff h e

/-! ## Two users -/

/-- A test of a workflow with one webhook. -/
def testForm (userId : UserId) (workflowId : WorkflowId) (runData : Option (List String)) : Event :=
  .needsWebhook
    { userId, workflowId, runData, pushRef := none
      triggerToStartFrom := none, workflowIsActive := false
      attempts := [{
        webhook :=
          { node := "Webhook", nodeType := "n8n-nodes-base.webhook"
            httpMethod := "GET", path := "form", webhookId := none
            restartWebhook := false, workflowId, userId := none
            isTest := false }
        outcome := .ok }]
      deactivateFails := none }

/-- One user tests a workflow, and then another user theirs. -/
def oneForm : List (Event × TestWebhooks) := pathOf next .start [testForm "1" "A" none]

def twoForms : List (Event × TestWebhooks) :=
  pathOf next .start [testForm "1" "A" none, testForm "2" "B" none]

/-- A test that nothing is in the way of. -/
theorem safe_oneForm : EveryStep Safe .start oneForm := by
  have hrun : IsRun Step .start oneForm := ⟨⟨trivial, rfl⟩, trivial⟩
  refine (everyCall_safe_iff hrun).mpr ⟨.inr ?_, trivial⟩
  intro a ha
  rw [mem_singleton.mp ha]
  exact ⟨rfl, rfl, fun r hr => by cases hr⟩

/-- The second call overwrites the registration of the first one. -/
theorem not_safe_twoForms : IsRun Step .start twoForms ∧ ¬ EveryStep Safe .start twoForms := by
  refine ⟨⟨⟨trivial, rfl⟩, ⟨trivial, rfl⟩, trivial⟩, fun h => ?_⟩
  obtain ⟨-, ⟨hkept, -⟩, -⟩ := h
  obtain ⟨r, hr⟩ : ∃ r, (next .start (testForm "1" "A"
      none)).registrations.get? "GET|form" = some r :=
    Option.isSome_iff_exists.mp (by decide)
  have huser : ((next .start (testForm "1" "A" none)).registrations.get? "GET|form").map
        (fun r => (r.webhook.userId, r.webhook.workflowId))
      = some (some "1", "A") := by
    decide
  rw [hr, Option.map_some, Option.some_inj, Prod.mk.injEq] at huser
  have hsame := hkept "GET|form" r hr (by rw [huser.1]; decide) (by rw [huser.2]; decide)
  have hnow : ((next (next .start (testForm "1" "A" none))
      (testForm "2" "B" none)).registrations.get? "GET|form").map (fun r => r.webhook.userId)
      = some (some "2") := by
    decide
  have hsame' : (next (next .start (testForm "1" "A" none))
      (testForm "2" "B" none)).registrations.get? "GET|form" = some r :=
    hsame
  rw [hsame', Option.map_some, huser.1] at hnow
  revert hnow
  decide

/-- A call that returns `false` has left its timer; a later test of the same
    workflow is cancelled when it fires. -/
example :
    ((pathOf next .start [testForm "1" "A" (some ["Webhook"]), testForm "1" "A" none,
        .fire { id := 0, workflowId := "A" } none]).map fun p =>
      p.2.registrations.keys)
      = [[], ["GET|form"], []] := by
  decide

end N8nTestWebhooks
