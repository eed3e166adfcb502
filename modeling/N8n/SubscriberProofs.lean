import Mathlib.Data.List.Infix

/-! # Scaling-mode messages — the subscriber and its debounced handler

    A message that may wait goes to one debounced handler, whatever its
    command and its payload.  The handler keeps the last message only, so of
    the messages that come in within the delay of each other the last one is
    emitted.

    `emitsAll_iff` gives the condition on the messages and their times under
    which every message is emitted, or one that repeats it. -/

namespace N8nSubscriber

open List

/-! ## Messages -/

inductive Command where
  | reloadLicense | restartEventBus | reloadExternalSecretsProviders
  | reloadOverwriteCredentials | reloadOidcConfig | reloadSamlConfig
  | reloadSsoProvisioningConfiguration | reloadSourceControlConfig
  | communityPackageInstall | communityPackageUpdate
  | communityPackageUninstall | getWorkerId | getWorkerStatus
  | addWebhooksTriggersAndPollers | removeTriggersAndPollers
  | displayWorkflowActivation | displayWorkflowDeactivation
  | displayWorkflowActivationError | relayExecutionLifecycleEvent
  | clearTestWebhooks
deriving DecidableEq

inductive WorkerResponse where
  | responseToGetWorkerStatus

inductive EventName where
  | command (command : Command)
  | response (response : WorkerResponse)

def EventName.isCommand : EventName → Bool
  | .command _ => true
  | .response _ => false

/-- A message as it is parsed; `P` is the type of the payloads. -/
structure Message (P : Type) where
  eventName : EventName
  senderId : Option String
  targets : Option (List String)
  selfSend : Bool
  debounce : Bool
  payload : P

/-- The commands that are sent to the sender as well. -/
def SELF_SEND_COMMANDS : List Command := [.addWebhooksTriggersAndPollers, .removeTriggersAndPollers]

def IMMEDIATE_COMMANDS : List Command :=
  [.addWebhooksTriggersAndPollers, .removeTriggersAndPollers, .relayExecutionLifecycleEvent]

variable {P Raw : Type}

/-- `publishCommand`, with the host that sends the command. -/
def publishCommand (hostId : String) (command : Command)
    (targets : Option (List String)) (payload : P) : Message P :=
  { eventName := .command command
    senderId := some hostId
    targets
    selfSend := command ∈ SELF_SEND_COMMANDS
    debounce := command ∉ IMMEDIATE_COMMANDS
    payload }

/-! ## The subscriber -/

/-- In milliseconds. -/
def DEBOUNCE_DELAY : Nat := 300

structure Emission (P : Type) where
  time : Nat
  eventName : EventName
  payload : P

/-- The message that the debounced handler was called with last, and when
    its delay ends; and what went to the event bus. -/
structure Subscriber (P : Type) where
  debounced : Option (Message P × Nat)
  emitted : List (Emission P)

/-- A string that comes in on a channel. -/
structure Arrival (Raw : Type) where
  time : Nat
  str : Raw

section

/-- The id of the instance, and `jsonParse` without what is malformed. -/
structure Context (Raw P : Type) where
  hostId : String
  jsonParse : Raw → Option (Message P)

variable (ctx : Context Raw P)

/-- The message, if it is one and addressed to the instance. -/
def parseMessage (str : Raw) : Option (Message P) :=
  match ctx.jsonParse str with
  | none => none
  | some msg =>
    if msg.eventName.isCommand && !msg.selfSend
        && (msg.senderId = some ctx.hostId
          || msg.targets.any fun targets => ctx.hostId ∉ targets) then
      none
    else some msg

def handlerFn (s : Subscriber P) (time : Nat) (msg : Message P) : Subscriber P :=
  { s with
    emitted := s.emitted ++
      [{ time, eventName := msg.eventName, payload := msg.payload }] }

/-- The delay of the debounced handler has passed. -/
def fire (s : Subscriber P) : Subscriber P :=
  match s.debounced with
  | none => s
  | some (msg, deadline) => { handlerFn s deadline msg with debounced := none }

/-- Time goes on: the debounced handler is called once its delay has
    passed. -/
def wait (s : Subscriber P) (now : Nat) : Subscriber P :=
  match s.debounced with
  | none => s
  | some (_, deadline) => if deadline ≤ now then fire s else s

def debouncedHandlerFn (s : Subscriber P) (now : Nat) (msg : Message P) : Subscriber P :=
  { s with debounced := some (msg, now + DEBOUNCE_DELAY) }

/-- The handler of a string that comes in. -/
def onMessage (s : Subscriber P) (arrival : Arrival Raw) : Subscriber P :=
  let s := wait s arrival.time
  match parseMessage ctx arrival.str with
  | none => s
  | some msg =>
    if msg.debounce then debouncedHandlerFn s arrival.time msg
    else handlerFn s arrival.time msg

/-- All that comes in, from some state on. -/
def receive (s : Subscriber P) (arrivals : List (Arrival Raw)) : Subscriber P :=
  arrivals.foldl (onMessage ctx) s

/-- The subscriber after all of them, with the last delay passed. -/
def settled (s : Subscriber P) (arrivals : List (Arrival Raw)) : Subscriber P :=
  fire (receive ctx s arrivals)

end

def Subscriber.start : Subscriber P := { debounced := none, emitted := [] }

/-! ## The property and the condition -/

/-- The same command or response with the same payload. -/
def Same (msg msg' : Message P) : Prop :=
  msg.eventName = msg'.eventName ∧ msg.payload = msg'.payload

/-- What comes in, in the order of time. -/
structure Arrivals (Raw : Type) where
  list : List (Arrival Raw)
  sorted : list.Pairwise fun a b => a.time ≤ b.time

/-- What is on the event bus when a string comes in. -/
def emittedBefore (ctx : Context Raw P) (before : List (Arrival Raw))
    (arrival : Arrival Raw) : List (Emission P) :=
  (wait (receive ctx .start before) arrival.time).emitted

/-- Every message is emitted after it came in, or one that is the same. -/
def EmitsAll (ctx : Context Raw P) (arrivals : Arrivals Raw) : Prop :=
  ∀ before arrival rest msg, arrivals.list = before ++ arrival :: rest →
    parseMessage ctx arrival.str = some msg →
    ∃ emission ∈ (settled ctx .start arrivals.list).emitted.drop
        (emittedBefore ctx before arrival).length,
      emission.eventName = msg.eventName ∧ emission.payload = msg.payload

/-- No debounced message comes in before the time. -/
def QuietUntil (ctx : Context Raw P) (time : Nat) (rest : List (Arrival Raw)) : Prop :=
  ∀ later ∈ rest, ∀ msg, parseMessage ctx later.str = some msg →
    msg.debounce = true → time ≤ later.time

/-- The message is not debounced, or no debounced one follows within the
    delay. -/
def Undisturbed (ctx : Context Raw P) (time : Nat) (msg : Message P)
    (rest : List (Arrival Raw)) : Prop :=
  msg.debounce = true → QuietUntil ctx (time + DEBOUNCE_DELAY) rest

/-- The condition: every message, or one that comes in later and is the same,
    is undisturbed. -/
def RepeatedUndisturbed (ctx : Context Raw P) (arrivals : Arrivals Raw) : Prop :=
  ∀ arrival rest msg, arrival :: rest <:+ arrivals.list → parseMessage ctx arrival.str = some msg →
    ∃ arrival' rest' msg', arrival' :: rest' <:+ arrival :: rest
      ∧ parseMessage ctx arrival'.str = some msg' ∧ Same msg' msg
      ∧ Undisturbed ctx arrival'.time msg' rest'

/-! ## What is emitted -/

section

variable {ctx : Context Raw P} {s : Subscriber P} {arrival : Arrival Raw}
  {rest : List (Arrival Raw)} {time : Nat} {e : Emission P}

def emissionOf (time : Nat) (msg : Message P) : Emission P :=
  { time, eventName := msg.eventName, payload := msg.payload }

/-- When a message that is undisturbed is emitted. -/
def emissionTime (time : Nat) (msg : Message P) : Nat :=
  if msg.debounce then time + DEBOUNCE_DELAY else time

/-- The message that waits is emitted, as none takes its place. -/
def FromDebounced (ctx : Context Raw P) (debounced : Option (Message P × Nat))
    (list : List (Arrival Raw)) (e : Emission P) : Prop :=
  ∃ msg deadline, debounced = some (msg, deadline)
    ∧ QuietUntil ctx deadline list ∧ e = emissionOf deadline msg

/-- A message that comes in is emitted, as it is undisturbed. -/
def FromArrival (ctx : Context Raw P) (list : List (Arrival Raw)) (e : Emission P) : Prop :=
  ∃ arrival rest msg, arrival :: rest <:+ list
    ∧ parseMessage ctx arrival.str = some msg
    ∧ Undisturbed ctx arrival.time msg rest
    ∧ e = emissionOf (emissionTime arrival.time msg) msg

theorem quietUntil_cons :
    QuietUntil ctx time (arrival :: rest) ↔
      (∀ msg, parseMessage ctx arrival.str = some msg → msg.debounce = true → time ≤ arrival.time)
      ∧ QuietUntil ctx time rest := by
  simp only [QuietUntil, forall_mem_cons]

theorem quietUntil_of_le (hsorted : (arrival :: rest).Pairwise
      fun a b => a.time ≤ b.time) (h : time ≤ arrival.time) :
    QuietUntil ctx time (arrival :: rest) := by
  refine quietUntil_cons.mpr ⟨fun _ _ _ => h, ?_⟩
  intro later hmem _ _ _
  exact Nat.le_trans h ((pairwise_cons.mp hsorted).1 later hmem)

theorem fromArrival_cons :
    FromArrival ctx (arrival :: rest) e ↔
      (∃ msg, parseMessage ctx arrival.str = some msg
        ∧ Undisturbed ctx arrival.time msg rest
        ∧ e = emissionOf (emissionTime arrival.time msg) msg)
      ∨ FromArrival ctx rest e := by
  constructor
  · rintro ⟨a, r, msg, hsuffix, hmsg, hund, he⟩
    rcases suffix_cons_iff.mp hsuffix with heq | hrest
    · cases heq
      exact .inl ⟨msg, hmsg, hund, he⟩
    · exact .inr ⟨a, r, msg, hrest, hmsg, hund, he⟩
  · rintro (⟨msg, hmsg, hund, he⟩ | ⟨a, r, msg, hrest, hmsg, hund, he⟩)
    · exact ⟨arrival, rest, msg, suffix_refl _, hmsg, hund, he⟩
    · exact ⟨a, r, msg, hrest.trans (suffix_cons ..), hmsg, hund, he⟩

/-- What waiting emits, and what it leaves. -/
theorem wait_spec (s : Subscriber P) (now : Nat) :
    ∃ fired, (wait s now).emitted = s.emitted ++ fired
      ∧ (∀ e, e ∈ fired ↔ ∃ msg deadline,
        s.debounced = some (msg, deadline) ∧ deadline ≤ now ∧ e = emissionOf deadline msg)
      ∧ ∀ msg deadline, (wait s now).debounced = some (msg, deadline)
        ↔ s.debounced = some (msg, deadline) ∧ now < deadline := by
  rcases hdebounced : s.debounced with _ | ⟨waiting, due⟩
  · refine ⟨[], ?_, ?_, ?_⟩ <;> simp [wait, hdebounced]
  · by_cases hdue : due ≤ now
    · refine ⟨[emissionOf due waiting], ?_, ?_, ?_⟩
      · simp [wait, fire, handlerFn, emissionOf, hdebounced, hdue]
      · intro e
        rw [mem_singleton]
        constructor
        · rintro rfl
          exact ⟨waiting, due, rfl, hdue, rfl⟩
        · rintro ⟨msg, deadline, heq, -, rfl⟩
          cases heq
          rfl
      · intro msg deadline
        have hnone : (wait s now).debounced = none := by
          simp [wait, fire, hdebounced, hdue]
        rw [hnone]
        constructor
        · intro heq
          cases heq
        · rintro ⟨heq, hless⟩
          cases heq
          omega
    · have hsame : wait s now = s := by
        simp [wait, hdebounced, hdue]
      rw [hsame]
      refine ⟨[], (append_nil _).symm, ?_, ?_⟩
      · intro e
        constructor
        · intro hmem
          cases hmem
        · rintro ⟨msg, deadline, heq, hle, -⟩
          cases heq
          exact absurd hle hdue
      · intro msg deadline
        rw [hdebounced]
        constructor
        · intro heq
          cases heq
          exact ⟨rfl, Nat.lt_of_not_le hdue⟩
        · exact fun h => h.1

theorem fromDebounced_cons {fired : List (Emission P)}
    (hsorted : (arrival :: rest).Pairwise fun a b => a.time ≤ b.time)
    (hnot : ∀ msg, parseMessage ctx arrival.str = some msg → msg.debounce = false)
    (hfired : ∀ e, e ∈ fired ↔ ∃ msg deadline,
      s.debounced = some (msg, deadline) ∧ deadline ≤ arrival.time ∧ e = emissionOf deadline msg)
    (hleft : ∀ msg deadline, (wait s arrival.time).debounced = some (msg, deadline)
        ↔ s.debounced = some (msg, deadline) ∧ arrival.time < deadline) :
    FromDebounced ctx s.debounced (arrival :: rest) e ↔
      e ∈ fired ∨ FromDebounced ctx (wait s arrival.time).debounced rest e := by
  rw [hfired]
  constructor
  · rintro ⟨msg, deadline, hdebounced, hquiet, he⟩
    by_cases hdue : deadline ≤ arrival.time
    · exact .inl ⟨msg, deadline, hdebounced, hdue, he⟩
    · exact .inr ⟨msg, deadline, (hleft msg deadline).mpr ⟨hdebounced, Nat.lt_of_not_le hdue⟩,
        (quietUntil_cons.mp hquiet).2, he⟩
  · rintro (⟨msg, deadline, hdebounced, hdue, he⟩ |
      ⟨msg, deadline, hwait, hquiet, he⟩)
    · exact ⟨msg, deadline, hdebounced, quietUntil_of_le hsorted hdue, he⟩
    · refine ⟨msg, deadline, ((hleft msg deadline).mp hwait).1,
        quietUntil_cons.mpr ⟨?_, hquiet⟩, he⟩
      intro next hnext hdebounce
      rw [hnot next hnext] at hdebounce
      cases hdebounce

variable {msg : Message P}

theorem fromDebounced_debounced {fired : List (Emission P)}
    (hsorted : (arrival :: rest).Pairwise fun a b => a.time ≤ b.time)
    (hparse : parseMessage ctx arrival.str = some msg) (hdebounce : msg.debounce = true)
    (hfired : ∀ e, e ∈ fired ↔ ∃ msg deadline,
      s.debounced = some (msg, deadline) ∧ deadline ≤ arrival.time ∧ e = emissionOf deadline msg) :
    FromDebounced ctx s.debounced (arrival :: rest) e ↔ e ∈ fired := by
  rw [hfired]
  constructor
  · rintro ⟨waiting, due, hdebounced, hquiet, he⟩
    exact ⟨waiting, due, hdebounced, (quietUntil_cons.mp hquiet).1 msg hparse hdebounce, he⟩
  · rintro ⟨waiting, due, hdebounced, hdue, he⟩
    exact ⟨waiting, due, hdebounced, quietUntil_of_le hsorted hdue, he⟩

theorem fromDebounced_called (hdebounce : msg.debounce = true) :
    FromDebounced ctx (some (msg, time + DEBOUNCE_DELAY)) rest e ↔
      ∃ other, some msg = some other ∧ Undisturbed ctx time other rest
        ∧ e = emissionOf (emissionTime time other) other := by
  have htime : emissionTime time msg = time + DEBOUNCE_DELAY := if_pos hdebounce
  constructor
  · rintro ⟨other, due, heq, hquiet, he⟩
    cases heq
    exact ⟨msg, rfl, fun _ => hquiet, by rw [htime]; exact he⟩
  · rintro ⟨other, heq, hund, he⟩
    cases heq
    rw [htime] at he
    exact ⟨msg, _, rfl, hund hdebounce, he⟩

theorem fromImmediate (himmediate : msg.debounce = false) :
    (∃ other, some msg = some other ∧ Undisturbed ctx time other rest
        ∧ e = emissionOf (emissionTime time other) other)
      ↔ e = emissionOf time msg := by
  have htime : emissionTime time msg = time := by
    rw [emissionTime, if_neg (Bool.eq_false_iff.mp himmediate)]
  constructor
  · rintro ⟨other, heq, -, he⟩
    cases heq
    rwa [htime] at he
  · intro he
    refine ⟨msg, rfl, fun h => ?_, by rwa [htime]⟩
    rw [himmediate] at h
    cases h

theorem settled_nil (ctx : Context Raw P) (s : Subscriber P) :
    ∃ new, (settled ctx s []).emitted = s.emitted ++ new
      ∧ ∀ e, e ∈ new ↔ FromDebounced ctx s.debounced [] e ∨ FromArrival ctx [] e := by
  have hnone : ∀ e, ¬ FromArrival ctx ([] : List (Arrival Raw)) e := by
    rintro e ⟨a, r, msg, hsuffix, -⟩
    cases suffix_nil.mp hsuffix
  rcases hdebounced : s.debounced with _ | ⟨waiting, due⟩
  · refine ⟨[], ?_, ?_⟩
    · simp [settled, receive, fire, hdebounced]
    · intro e
      constructor
      · intro hmem
        cases hmem
      · rintro (⟨msg, deadline, heq, -⟩ | harrival)
        · cases heq
        · exact absurd harrival (hnone e)
  · refine ⟨[emissionOf due waiting], ?_, ?_⟩
    · simp [settled, receive, fire, handlerFn, emissionOf, hdebounced]
    · intro e
      rw [mem_singleton]
      constructor
      · rintro rfl
        exact .inl ⟨waiting, due, rfl, (fun _ h => by cases h), rfl⟩
      · rintro (⟨msg, deadline, heq, -, he⟩ | harrival)
        · cases heq
          exact he
        · exact absurd harrival (hnone e)

/-- **WHAT IS EMITTED** after all strings: the message that waits, unless
    another one takes its place, and the undisturbed ones. -/
theorem settled_spec (ctx : Context Raw P) (list : List (Arrival Raw))
    (hsorted : list.Pairwise fun a b => a.time ≤ b.time) (s : Subscriber P) :
    ∃ new, (settled ctx s list).emitted = s.emitted ++ new
      ∧ ∀ e, e ∈ new ↔ FromDebounced ctx s.debounced list e ∨ FromArrival ctx list e := by
  induction list generalizing s with
  | nil => exact settled_nil ctx s
  | cons arrival rest ih =>
    obtain ⟨fired, hemitted, hfired, hleft⟩ := wait_spec s arrival.time
    obtain ⟨new, hnew, hmem⟩ := ih (pairwise_cons.mp hsorted).2 (onMessage ctx s arrival)
    have hunfold : settled ctx s (arrival :: rest)
        = settled ctx (onMessage ctx s arrival) rest := rfl
    rw [hunfold, hnew]
    rcases hparse : parseMessage ctx arrival.str with _ | msg
    · have hstep : onMessage ctx s arrival = wait s arrival.time := by
        simp [onMessage, hparse]
      rw [hstep] at hmem ⊢
      refine ⟨fired ++ new, ?_, ?_⟩
      · rw [hemitted, append_assoc]
      · intro e
        rw [mem_append, hmem, fromDebounced_cons hsorted
          (fun msg h => by rw [hparse] at h; cases h) hfired hleft,
          fromArrival_cons, hparse, or_assoc]
        simp
    · by_cases hdebounce : msg.debounce = true
      · have hstep : onMessage ctx s arrival
            = debouncedHandlerFn (wait s arrival.time) arrival.time msg := by
          simp [onMessage, hparse, hdebounce]
        rw [hstep] at hmem ⊢
        refine ⟨fired ++ new, ?_, ?_⟩
        · show (wait s arrival.time).emitted ++ new = _
          rw [hemitted, append_assoc]
        · intro e
          rw [mem_append, hmem, fromDebounced_debounced hsorted hparse
            hdebounce hfired, fromArrival_cons, hparse]
          refine or_congr_right (or_congr_left ?_)
          exact fromDebounced_called hdebounce
      · have himmediate : msg.debounce = false := by simpa using hdebounce
        have hstep : onMessage ctx s arrival
            = handlerFn (wait s arrival.time) arrival.time msg := by
          simp [onMessage, hparse, himmediate]
        rw [hstep] at hmem ⊢
        refine ⟨fired ++ (emissionOf arrival.time msg :: new), ?_, ?_⟩
        · show (wait s arrival.time).emitted
            ++ [emissionOf arrival.time msg] ++ new = _
          rw [hemitted]
          simp
        · intro e
          rw [mem_append, mem_cons, hmem,
            fromDebounced_cons hsorted (fun other h => by
              rw [hparse] at h
              cases h
              exact himmediate) hfired hleft, fromArrival_cons, hparse,
            fromImmediate himmediate]
          show e ∈ fired ∨ e = emissionOf arrival.time msg
              ∨ FromDebounced ctx (wait s arrival.time).debounced rest e
              ∨ FromArrival ctx rest e ↔ _
          tauto

theorem onMessage_wait (s : Subscriber P) :
    onMessage ctx (wait s arrival.time) arrival = onMessage ctx s arrival := by
  have hwait : wait (wait s arrival.time) arrival.time = wait s arrival.time := by
    rcases hdebounced : s.debounced with _ | ⟨waiting, due⟩
    · simp [wait, hdebounced]
    · by_cases hdue : due ≤ arrival.time
      · simp [wait, fire, handlerFn, hdebounced, hdue]
      · simp [wait, hdebounced, hdue]
  rw [onMessage, hwait, onMessage]

/-- **EMITS ALL** messages, or repetitions of them, exactly if each of them,
    or a repetition, is undisturbed for as long as it is debounced. -/
theorem emitsAll_iff (ctx : Context Raw P) (arrivals : Arrivals Raw) :
    EmitsAll ctx arrivals ↔ RepeatedUndisturbed ctx arrivals := by
  have hlater : ∀ before arrival rest, arrivals.list = before ++ arrival :: rest → ∀ e,
      e ∈ (settled ctx .start arrivals.list).emitted.drop (emittedBefore ctx before arrival).length
        ↔ FromDebounced ctx (wait (receive ctx .start before) arrival.time).debounced
            (arrival :: rest) e
          ∨ FromArrival ctx (arrival :: rest) e := by
    intro before arrival rest hlist e
    have hsorted : (arrival :: rest).Pairwise fun a b : Arrival Raw => a.time ≤ b.time := by
      have hall := arrivals.sorted
      rw [hlist] at hall
      exact (pairwise_append.mp hall).2.1
    obtain ⟨new, hnew, hmem⟩ := settled_spec ctx _ hsorted
      (wait (receive ctx .start before) arrival.time)
    have hsame : settled ctx .start arrivals.list = settled ctx
        (wait (receive ctx .start before) arrival.time) (arrival :: rest) := by
      rw [hlist, settled, settled, receive, receive, foldl_append,
        foldl_cons, foldl_cons, onMessage_wait]
      rfl
    rw [hsame, hnew, emittedBefore, drop_left]
    exact hmem e
  constructor
  · intro hall arrival rest msg hsuffix hmsg
    obtain ⟨before, hlist⟩ := hsuffix
    obtain ⟨e, he, hname, hpayload⟩ := hall before arrival rest msg hlist.symm hmsg
    rcases (hlater before arrival rest hlist.symm e).mp he with
      ⟨waiting, due, hdebounced, hquiet, -⟩ |
      ⟨arrival', rest', msg', hsuffix', hmsg', hund, heq⟩
    · -- What waits is emitted, so the message itself is not debounced.
      obtain ⟨fired, -, -, hleft⟩ := wait_spec (receive ctx .start before) arrival.time
      have hdue := ((hleft waiting due).mp hdebounced).2
      refine ⟨arrival, rest, msg, suffix_refl _, hmsg, ⟨rfl, rfl⟩, ?_⟩
      intro hdebounce
      have hle := (quietUntil_cons.mp hquiet).1 msg hmsg hdebounce
      omega
    · subst heq
      exact ⟨arrival', rest', msg', hsuffix', hmsg', ⟨hname, hpayload⟩, hund⟩
  · intro hall before arrival rest msg hlist hmsg
    obtain ⟨arrival', rest', msg', hsuffix, hmsg', ⟨hname, hpayload⟩, hund⟩ :=
      hall arrival rest msg ⟨before, hlist.symm⟩ hmsg
    refine ⟨emissionOf (emissionTime arrival'.time msg') msg', ?_, hname, hpayload⟩
    exact (hlater before arrival rest hlist _).mpr
      (.inr ⟨arrival', rest', msg', hsuffix, hmsg', hund, rfl⟩)

end

/-! ## A license and an event bus -/

/-- An instance, to which messages come as they are. -/
def host : Context (Message Unit) Unit :=
  { hostId := "main", jsonParse := some }

/-- Another instance has the license reloaded, and the event bus restarted
    within the delay. -/
def reloadAndRestart : Arrivals (Message Unit) :=
  { list :=
      [{ time := 0
         str := publishCommand "other" .reloadLicense none () },
       { time := 100
         str := publishCommand "other" .restartEventBus none () }]
    sorted := by decide }

/-- The license is not reloaded. -/
theorem reloadAndRestart_loses : ¬ EmitsAll host reloadAndRestart := by
  intro hall
  obtain ⟨e, he, hname, -⟩ := hall [] _ _ (publishCommand "other" .reloadLicense none ()) rfl rfl
  have hone : (settled host .start reloadAndRestart.list).emitted
      = [{ time := 400
           eventName := .command .restartEventBus
           payload := () }] := rfl
  cases mem_singleton.mp (mem_of_mem_drop he)
  cases hname

end N8nSubscriber
