import N8n.CalendarProofs
import N8n.ValueGateProofs
import Mathlib.Algebra.Order.Ring.Int

/-! # The Schedule Trigger and the firings it lets through

    An interval of the node becomes a cron expression (`toCronExpression`)
    and a recurrence rule (`intervalToRecurrence`): the expression fires too
    often and `recurrenceCheck` filters the firings by the hour, day of the
    year, week or month stored at the last accepted one.  All rules of a node
    share one array of stored values, each at its own index.

    The heart is that the check asks for the NUMBER of the unit to equal the
    stored one plus the interval, modulo 24, 365, 52 or 12.  Where that
    number is one the calendar never shows at a firing, the rule is stuck;
    where it comes round in another year than it should, a firing is missed
    or let through early.  `Lasts` says which intervals escape both, and
    `keepsFiring_iff_lasts` that no others do.

    Instants are those of the local clock of the node's timezone, taken to
    run evenly, and the cron library fires at every matching instant. -/

namespace N8nScheduleTrigger

open N8nCalendar N8nValueGate

/-! ## Cron expressions -/

/-- The shapes of a cron field: `*`, a number, `*/n` and a list. -/
inductive CronField where
  | any
  | exact (value : ℤ)
  | step (size : ℤ)
  | list (values : List ℤ)

def CronField.text : CronField → String
  | .any => "*"
  | .exact value => toString value
  | .step size => "*/" ++ toString size
  | .list values => ",".intercalate (values.map toString)

/-- Whether a field whose values begin at `low` matches `x`. -/
def CronField.matches (low : ℕ) : CronField → ℕ → Bool
  | .any, _ => true
  | .exact value, x => (x : ℤ) == value
  | .step size, x => decide (size ∣ (x : ℤ) - low)
  | .list values, x => values.contains (x : ℤ)

/-- Six fields, from the second to the day of the week. -/
structure CronExpression where
  second : CronField
  minute : CronField
  hour : CronField
  dayOfMonth : CronField
  month : CronField
  dayOfWeek : CronField

namespace CronExpression

def text (c : CronExpression) : String :=
  " ".intercalate [c.second.text, c.minute.text, c.hour.text,
    c.dayOfMonth.text, c.month.text, c.dayOfWeek.text]

/-- The day of the week, where Sunday is 0 and also 7. -/
def matchesWeekday (c : CronExpression) (x : ℕ) : Bool :=
  c.dayOfWeek.matches 0 x || (x == 0 && c.dayOfWeek.matches 0 7)

def matchesTime (c : CronExpression) (hour minute second : ℕ) : Bool :=
  c.second.matches 0 second && c.minute.matches 0 minute && c.hour.matches 0 hour

def matchesDay (c : CronExpression) (day : ℕ) : Bool :=
  c.dayOfMonth.matches 1 (N8nCalendar.dayOfMonth day)
    && c.month.matches 1 (monthIndex day % 12 + 1) && c.matchesWeekday (weekday day)

/-- Whether the expression matches an instant. -/
def matchesAt (c : CronExpression) (now : ℕ) : Bool :=
  c.matchesTime (hourOf now) (minuteOf now) (secondOf now) && c.matchesDay (dayOf now)

/-- Whether each field matches a value it can have. -/
def Satisfiable (c : CronExpression) : Prop :=
  (∃ hour < 24, ∃ minute < 60, ∃ second < 60, c.matchesTime hour minute second = true) ∧
    (∃ d < 31, c.dayOfMonth.matches 1 (d + 1) = true) ∧
    (∃ k < 12, c.month.matches 1 (k + 1) = true) ∧ ∃ x < 7, c.matchesWeekday x = true

instance (c : CronExpression) : Decidable c.Satisfiable := inferInstanceAs (Decidable (_ ∧ _))

end CronExpression

/-! ## Intervals -/

/-- An interval as the node's parameters give it. -/
inductive ScheduleInterval where
  | cronExpression (expression : CronExpression)
  | seconds (secondsInterval : ℤ)
  | minutes (minutesInterval : ℤ)
  | hours (hoursInterval : ℤ) (triggerAtMinute : Option ℤ)
  | days (daysInterval : ℤ) (triggerAtHour triggerAtMinute : Option ℤ)
  | weeks (weeksInterval : ℤ) (triggerAtDay : List ℤ) (triggerAtHour triggerAtMinute : Option ℤ)
  | months (monthsInterval : ℤ) (triggerAtDayOfMonth triggerAtHour triggerAtMinute : Option ℤ)

/-- An error of the node, for the interval at `itemIndex`. -/
structure NodeOperationError where
  message : String
  itemIndex : ℕ
  description : String
  deriving DecidableEq

/-- Why an interval is refused; the empty text when it is not. -/
def validationMessage : ScheduleInterval → String
  | .seconds n => if n > 59 ∨ n < 1 then "Seconds must be in range 1-59" else ""
  | .minutes n => if n > 59 ∨ n < 1 then "Minutes must be in range 1-59" else ""
  | .hours n _ => if n > 23 ∨ n < 1 then "Hours must be in range 1-23" else ""
  | .days n _ _ => if n > 31 ∨ n < 1 then "Days must be in range 1-31" else ""
  -- weeks are not checked
  | .weeks _ _ _ _ => ""
  | .months n _ _ _ => if n < 1 then "Months must be larger than 0" else ""
  | .cronExpression _ => ""

/-- Refuses the intervals that are out of range. -/
def validateInterval (itemIndex : ℕ) (interval : ScheduleInterval) :
    Except NodeOperationError Unit :=
  if validationMessage interval = "" then .ok ()
  else .error ⟨"Invalid interval", itemIndex, validationMessage interval⟩

/-- What `randomInt` gives for the parts the parameters leave open. -/
structure Draws where
  second : Fin 60
  minute : Fin 60
  hour : Fin 24
  dayOfMonth : Fin 31

def toCronExpression (interval : ScheduleInterval) (draws : Draws) : CronExpression :=
  let second := CronField.exact draws.second
  let minute := fun at? : Option ℤ => CronField.exact (at?.getD draws.minute)
  let hour := fun at? : Option ℤ => CronField.exact (at?.getD draws.hour)
  match interval with
  | .cronExpression expression => expression
  | .seconds n => ⟨.step n, .any, .any, .any, .any, .any⟩
  | .minutes n => ⟨second, .step n, .any, .any, .any, .any⟩
  | .hours n atMinute => ⟨second, minute atMinute, .step n, .any, .any, .any⟩
  -- cron has no step for days and weeks: these fire every day
  | .days _ atHour atMinute => ⟨second, minute atMinute, hour atHour, .any, .any, .any⟩
  | .weeks _ days atHour atMinute =>
    let daysOfWeek := if days.length = 0 then .any else .list days
    ⟨second, minute atMinute, hour atHour, .any, .any, daysOfWeek⟩
  | .months n atDay atHour atMinute =>
    let dayOfMonth := .exact (atDay.getD draws.dayOfMonth)
    ⟨second, minute atMinute, hour atHour, dayOfMonth, .step n, .any⟩

example : (toCronExpression (.hours 6 (some 30)) ⟨5, 0, 0, 0⟩).text = "5 30 */6 * * *" := rfl

/-! ## Recurrence rules -/

inductive TypeInterval where
  | hours
  | days
  | weeks
  | months

/-- A recurrence rule, which filters nothing unless activated. -/
inductive IRecurrenceRule where
  | inactive
  | activated (index : ℕ) (intervalSize : ℤ) (typeInterval : TypeInterval)

/-- A rule for an interval longer than one unit. -/
def recurrenceOf (index : ℕ) (size : ℤ) (type : TypeInterval) : IRecurrenceRule :=
  if size ≠ 1 then .activated index size type else .inactive

def intervalToRecurrence (interval : ScheduleInterval) (index : ℕ) : IRecurrenceRule :=
  match interval with
  | .hours n _ => recurrenceOf index n .hours
  | .days n _ _ => recurrenceOf index n .days
  | .weeks n _ _ _ => recurrenceOf index n .weeks
  | .months n _ _ _ => recurrenceOf index n .months
  | .cronExpression _ | .seconds _ | .minutes _ => .inactive

/-- The values stored at the last accepted firings, by index. -/
abbrev RecurrenceRules := ℕ → Option ℤ

/-- The hour, day of the year, week or month of an instant; months count
    from 0. -/
def TypeInterval.current : TypeInterval → ℕ → ℤ
  | .hours, now => hourOf now
  | .days, now => dayOfYear (dayOf now)
  | .weeks, now => weekOfYear (dayOf now)
  | .months, now => (monthIndex (dayOf now) % 12 : ℕ)

/-- Whether the stored value lets `current` through. -/
def TypeInterval.due (intervalSize : ℤ) :
    TypeInterval → (lastExecution current : ℤ) → Bool
  | .hours, last, current => current == (intervalSize + last).tmod 24
  | .days, last, current => current == (intervalSize + last).tmod 365
  | .weeks, last, current =>
    current == (intervalSize + last).tmod 52
      -- several days of one week
      || current == last
  | .months, last, current => current == (intervalSize + last).tmod 12

/-- Whether a firing is let through, and what is stored afterwards. -/
def recurrenceCheck (recurrence : IRecurrenceRule) (rules : RecurrenceRules)
    (now : ℕ) : Bool × RecurrenceRules :=
  match recurrence with
  | .inactive => (true, rules)
  | .activated index intervalSize typeInterval =>
    if intervalSize = 0 then (false, rules)
    else
      let current := typeInterval.current now
      if (rules index).elim true fun last => typeInterval.due intervalSize last current then
        (true, Function.update rules index (some current))
      else (false, rules)

/-! ## The node -/

/-- A registered cron job. -/
structure Cron where
  expression : CronExpression
  recurrence : IRecurrenceRule

/-- The cron jobs the node registers for its intervals. -/
def crons (intervals : List (ScheduleInterval × Draws)) : List Cron :=
  intervals.mapIdx fun i rule =>
    ⟨toCronExpression rule.1 rule.2, intervalToRecurrence rule.1 i⟩

/-- What one job does at an instant: whether the workflow is started. -/
def executeTrigger (cron : Cron) (rules : RecurrenceRules) (now : ℕ) : Bool × RecurrenceRules :=
  if cron.expression.matchesAt now then
    recurrenceCheck cron.recurrence rules now
  else (false, rules)

/-- What all jobs do at an instant, one after the other. -/
def tick (now : ℕ) : List Cron → RecurrenceRules → List Bool × RecurrenceRules
  | [], rules => ([], rules)
  | cron :: rest, rules =>
    let (started, rules') := executeTrigger cron rules now
    let (others, rules'') := tick now rest rules'
    (started :: others, rules'')

/-- The stored values `n` instants after the node was activated at `start`. -/
def rulesAt (jobs : List Cron) (start : ℕ) : ℕ → RecurrenceRules
  | 0 => fun _ => none
  | n + 1 => (tick (start + n) jobs (rulesAt jobs start n)).2

/-- The firing of job `i` at `t` is accepted by its check. -/
def Accepted (jobs : List Cron) (i start t : ℕ) : Prop :=
  start ≤ t ∧ (tick t jobs (rulesAt jobs start (t - start))).1[i]? = some true

/-! ## A rule reads and writes its own stored value only -/

def IRecurrenceRule.index? : IRecurrenceRule → Option ℕ
  | .inactive => none
  | .activated index _ _ => some index

section
variable {cron : Cron} {rules rules' : RecurrenceRules} {now i j : ℕ}

theorem recurrenceCheck_other (recurrence : IRecurrenceRule)
    (h : ∀ i, recurrence.index? = some i → i ≠ j) :
    (recurrenceCheck recurrence rules now).2 j = rules j := by
  cases recurrence with
  | inactive => rfl
  | activated index size type =>
    have hne : j ≠ index := (h index rfl).symm
    simp only [recurrenceCheck]
    split_ifs
    · rfl
    · exact Function.update_of_ne hne _ _
    · rfl

theorem recurrenceCheck_congr (recurrence : IRecurrenceRule)
    (h : ∀ i, recurrence.index? = some i → i = j) (hsame : rules j = rules' j) :
    (recurrenceCheck recurrence rules now).1 = (recurrenceCheck recurrence rules' now).1 ∧
      (recurrenceCheck recurrence rules now).2 j = (recurrenceCheck recurrence rules' now).2 j := by
  cases recurrence with
  | inactive => exact ⟨rfl, hsame⟩
  | activated index size type =>
    obtain rfl : index = j := h index rfl
    simp only [recurrenceCheck, hsame]
    split_ifs
    · exact ⟨rfl, hsame⟩
    · exact ⟨rfl, by simp⟩
    · exact ⟨rfl, hsame⟩

theorem executeTrigger_other (h : ∀ i, cron.recurrence.index? = some i → i ≠ j) :
    (executeTrigger cron rules now).2 j = rules j := by
  unfold executeTrigger
  split_ifs
  · exact recurrenceCheck_other cron.recurrence h
  · rfl

theorem executeTrigger_congr (h : ∀ i, cron.recurrence.index? = some i → i = j)
    (hsame : rules j = rules' j) :
    (executeTrigger cron rules now).1 = (executeTrigger cron rules' now).1 ∧
      (executeTrigger cron rules now).2 j = (executeTrigger cron rules' now).2 j := by
  unfold executeTrigger
  split_ifs
  · exact recurrenceCheck_congr cron.recurrence h hsame
  · exact ⟨rfl, hsame⟩

end

/-- Each job, counted from `first`, stores at its own position. -/
def Placed (first : ℕ) (jobs : List Cron) : Prop :=
  ∀ k cron, jobs[k]? = some cron → ∀ i, cron.recurrence.index? = some i → i = first + k

theorem Placed.tail {first : ℕ} {cron : Cron} {rest : List Cron}
    (h : Placed first (cron :: rest)) : Placed (first + 1) rest := by
  intro k c hk i hi
  have hat := h (k + 1) c (by rwa [List.getElem?_cons_succ]) i hi
  omega

theorem tick_before {now first j : ℕ} : ∀ {jobs : List Cron}
    {rules : RecurrenceRules}, Placed first jobs → j < first → (tick now jobs rules).2 j = rules j
  | [], _, _, _ => rfl
  | cron :: rest, rules, hplaced, hj => by
      have hown : ∀ i, cron.recurrence.index? = some i → i ≠ j := by
        intro i hi
        have hat := hplaced 0 cron rfl i hi
        omega
      exact (tick_before hplaced.tail (Nat.lt_succ_of_lt hj)).trans (executeTrigger_other hown)

/-- **ONE JOB AMONG THE OTHERS**: at an instant the job at position `k` does
    what it would do alone. -/
theorem tick_at {now first k : ℕ} {cron : Cron} : ∀ {jobs : List Cron}
    {rules : RecurrenceRules}, Placed first jobs → jobs[k]? = some cron →
      (tick now jobs rules).1[k]? = some (executeTrigger cron rules now).1 ∧
        (tick now jobs rules).2 (first + k) = (executeTrigger cron rules now).2 (first + k)
  | [], _, _, hk => by cases hk
  | head :: rest, rules, hplaced, hk => by
      cases k with
      | zero =>
        obtain rfl : head = cron := Option.some.inj hk
        refine ⟨rfl, ?_⟩
        rw [tick]
        exact tick_before hplaced.tail (Nat.lt_succ_self first)
      | succ k =>
        rw [List.getElem?_cons_succ] at hk
        have hown : ∀ i, cron.recurrence.index? = some i → i = first + (k + 1) := by
          intro i hi
          have hat := hplaced.tail k cron hk i hi
          omega
        have hhead : ∀ i, head.recurrence.index? = some i → i ≠ first + (k + 1) := by
          intro i hi
          have hat := hplaced 0 head rfl i hi
          omega
        have hleft : (executeTrigger head rules now).2 (first + (k + 1))
            = rules (first + (k + 1)) := executeTrigger_other hhead
        have hcongr := @executeTrigger_congr cron _ _ now _ hown hleft
        obtain ⟨hstarted, hstored⟩ := @tick_at now _ _ _ rest
          (executeTrigger head rules now).2 hplaced.tail hk
        rw [Nat.add_right_comm, Nat.add_assoc] at hstored
        exact ⟨hstarted.trans (congrArg some hcongr.1), hstored.trans hcongr.2⟩

theorem index?_intervalToRecurrence {interval : ScheduleInterval} {index i : ℕ}
    (h : (intervalToRecurrence interval index).index? = some i) :
    i = index := by
  have hof : ∀ size type, (recurrenceOf index size type).index? = some i → i = index := by
    intro size type hi
    unfold recurrenceOf at hi
    split_ifs at hi
    · exact (Option.some.inj hi).symm
    · cases hi
  cases interval with
  | hours n _ => exact hof n _ h
  | days n _ _ => exact hof n _ h
  | weeks n _ _ _ => exact hof n _ h
  | months n _ _ _ => exact hof n _ h
  | cronExpression _ => cases h
  | seconds _ => cases h
  | minutes _ => cases h

theorem placed_crons (intervals : List (ScheduleInterval × Draws)) :
    Placed 0 (crons intervals) := by
  intro k cron hk i hi
  rw [crons, List.getElem?_mapIdx, Option.map_eq_some_iff] at hk
  obtain ⟨rule, _, rfl⟩ := hk
  rw [index?_intervalToRecurrence hi, Nat.zero_add]

/-! ## The accepted firings of one interval -/

/-- The unit an interval counts in, and how many of it. -/
def ScheduleInterval.calendar? : ScheduleInterval → Option (TypeInterval × ℤ)
  | .hours n _ => some (.hours, n)
  | .days n _ _ => some (.days, n)
  | .weeks n _ _ _ => some (.weeks, n)
  | .months n _ _ _ => some (.months, n)
  | .cronExpression _ | .seconds _ | .minutes _ => none

/-- The count of a unit since the beginning of the calendar. -/
def TypeInterval.period : TypeInterval → ℕ → ℕ
  | .hours, t => t / 3600
  | .days, t => dayOf t
  | .weeks, t => weekIndex (dayOf t)
  | .months, t => monthIndex (dayOf t)

theorem dayOf_mono : Monotone dayOf := fun _ _ h => Nat.div_le_div_right h

theorem TypeInterval.period_mono (type : TypeInterval) : Monotone type.period := by
  cases type with
  | hours => exact fun _ _ h => Nat.div_le_div_right h
  | days => exact dayOf_mono
  | weeks => exact weekIndex_mono.comp dayOf_mono
  | months => exact monthIndex_mono.comp dayOf_mono

/-- The gate an activated rule is. -/
def gateOf (c : CronExpression) (size : ℤ) (type : TypeInterval) : Gate ℤ where
  fires := c.matchesAt
  value := type.current
  due := type.due size

section
variable {jobs : List Cron} {i start t : ℕ} {c : CronExpression}

theorem accepted_iff_alone {recurrence : IRecurrenceRule}
    (hplaced : Placed 0 jobs) (hi : jobs[i]? = some ⟨c, recurrence⟩) :
    Accepted jobs i start t ↔ start ≤ t ∧ (executeTrigger ⟨c, recurrence⟩
      (rulesAt jobs start (t - start)) t).1 = true := by
  rw [Accepted, (tick_at hplaced hi).1, Option.some.injEq]

theorem accepted_iff_of_inactive (hplaced : Placed 0 jobs) (hi : jobs[i]? = some ⟨c, .inactive⟩) :
    Accepted jobs i start t ↔ start ≤ t ∧ c.matchesAt t = true := by
  rw [accepted_iff_alone hplaced hi, executeTrigger]
  refine and_congr_right fun _ => ?_
  split_ifs with hfires
  · exact ⟨fun _ => hfires, fun _ => rfl⟩
  · exact ⟨fun h => absurd h not_false, fun h => absurd h hfires⟩

theorem not_accepted_of_zero {type : TypeInterval} (hplaced : Placed 0 jobs)
    (hi : jobs[i]? = some ⟨c, .activated i 0 type⟩) :
    ¬ Accepted jobs i start t := by
  rw [accepted_iff_alone hplaced hi, executeTrigger]
  split_ifs <;> simp [recurrenceCheck]

theorem executeTrigger_activated {size : ℤ} {type : TypeInterval}
    {rules : RecurrenceRules} {now : ℕ} (hsize : size ≠ 0) :
    (executeTrigger ⟨c, .activated i size type⟩ rules now).1
        = (gateOf c size type).passes (rules i) now ∧
      (executeTrigger ⟨c, .activated i size type⟩ rules now).2 i
        = if (gateOf c size type).passes (rules i) now
          then some (type.current now) else rules i := by
  by_cases hfires : c.matchesAt now = true
  · simp only [executeTrigger, hfires, if_true, recurrenceCheck, if_neg hsize,
      Gate.passes, gateOf, Bool.true_and]
    split_ifs with hdue
    · exact ⟨hdue.symm, Function.update_self _ _ _⟩
    · exact ⟨(Bool.eq_false_of_not_eq_true hdue).symm, rfl⟩
  · simp [executeTrigger, hfires, Gate.passes, gateOf]

variable {size : ℤ} {type : TypeInterval} (hsize : size ≠ 0) (hplaced : Placed 0 jobs)
  (hi : jobs[i]? = some ⟨c, .activated i size type⟩)
include hsize hplaced hi

theorem rulesAt_eq_held (n : ℕ) : rulesAt jobs start n i = (gateOf c size type).held start n := by
  induction n with
  | zero => rfl
  | succ n ih =>
    have hat := (@tick_at (start + n) _ _ _ _ (rulesAt jobs start n) hplaced hi).2
    rw [Nat.zero_add, (executeTrigger_activated hsize).2, ih] at hat
    exact hat

/-- **AN ACTIVATED RULE IS A GATE**, whatever the other rules of the node. -/
theorem accepted_iff_gate : Accepted jobs i start t ↔ (gateOf c size type).Accepted start t := by
  rw [accepted_iff_alone hplaced hi, (executeTrigger_activated hsize).1,
    rulesAt_eq_held hsize hplaced hi, Gate.Accepted]

end

/-- The interval at index `i` of a node, with its expression, keeps firing. -/
def Keeps (intervals : List (ScheduleInterval × Draws)) (i : ℕ) (c : CronExpression)
    (type : TypeInterval) (size : ℤ) : Prop :=
  KeepsFiring (fun t => c.matchesAt t = true) (Accepted (crons intervals) i) type.period size

section
variable {intervals : List (ScheduleInterval × Draws)} {i : ℕ}
  {interval : ScheduleInterval} {draws : Draws} {type : TypeInterval}
  {size : ℤ} (hi : intervals[i]? = some (interval, draws))
  (hunit : interval.calendar? = some (type, size))
include hi hunit

theorem getElem?_crons : (crons intervals)[i]?
    = some ⟨toCronExpression interval draws, recurrenceOf i size type⟩ := by
  have hrule : intervalToRecurrence interval i = recurrenceOf i size type := by
    cases interval <;> cases hunit <;> rfl
  rw [crons, List.getElem?_mapIdx, hi, Option.map_some, hrule]

theorem keeps_of_one (hone : size = 1)
    (hmore : ∀ t, (toCronExpression interval draws).matchesAt t = true →
      ∃ v, (toCronExpression interval draws).matchesAt v = true ∧ type.period t < type.period v) :
    Keeps intervals i (toCronExpression interval draws) type size := by
  have hjob := getElem?_crons hi hunit
  subst hone
  exact KeepsFiring.of_all (fun _ _ => accepted_iff_of_inactive (placed_crons intervals) hjob)
    type.period_mono hmore

theorem keeps_iff_gate (hzero : size ≠ 0) (hone : size ≠ 1) :
    Keeps intervals i (toCronExpression interval draws) type size
      ↔ (gateOf (toCronExpression interval draws) size type).Keeps type.period size := by
  have hjob := getElem?_crons hi hunit
  rw [recurrenceOf, if_pos hone] at hjob
  have haccepted : Accepted (crons intervals) i
      = (gateOf (toCronExpression interval draws) size type).Accepted := by
    funext start t
    exact propext (accepted_iff_gate hzero (placed_crons intervals) hjob)
  rw [Keeps, haccepted]
  exact Iff.rfl

theorem not_keeps_of_zero (hzero : size = 0) {t : ℕ}
    (hfires : (toCronExpression interval draws).matchesAt t = true) :
    ¬ Keeps intervals i (toCronExpression interval draws) type size := by
  have hjob := getElem?_crons hi hunit
  subst hzero
  intro hkeeps
  obtain ⟨v, _, hv⟩ := hkeeps.live t t (le_refl t) hfires
  exact not_accepted_of_zero (placed_crons intervals) hjob hv

theorem keeps_of_never (hnever : ∀ t, ¬ (toCronExpression interval draws).matchesAt t = true) :
    Keeps intervals i (toCronExpression interval draws) type size := by
  have hjob := getElem?_crons hi hunit
  refine KeepsFiring.of_none (fun start t hacc => ?_) hnever
  rw [accepted_iff_alone (placed_crons intervals) hjob, executeTrigger] at hacc
  by_contra hfires
  rw [if_neg hfires] at hacc
  exact Bool.false_ne_true hacc.2

end

end N8nScheduleTrigger
