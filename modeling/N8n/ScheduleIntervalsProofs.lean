import N8n.ScheduleTriggerProofs
import Mathlib.Tactic.IntervalCases

/-! # Which intervals of the Schedule Trigger keep firing

    One section for each unit.  Hours last when they divide the day; days and
    weeks only when every one of them is meant, since neither the days nor
    the weeks of every year are 365 and 52 numbers from 1; months when they
    divide the year and the day of the month exists in each of them.  In each
    section the intervals that last are given their next firing, and those
    that do not a year, an hour or a month in which they are stuck, miss a
    firing or fire early. -/

namespace N8nScheduleIntervals

open N8nCalendar N8nValueGate N8nScheduleTrigger

/-! ## Firings by day and time of day -/

/-- A time of day at which an expression fires, on the days it matches. -/
structure TimeOf (c : CronExpression) (hour minute second : ℕ) : Prop where
  hour_lt : hour < 24
  minute_lt : minute < 60
  second_lt : second < 60
  time : c.matchesTime hour minute second = true

section
variable {c : CronExpression} {day hour minute second t : ℕ}

theorem timeOf_of_matchesAt (h : c.matchesAt t = true) :
    TimeOf c (hourOf t) (minuteOf t) (secondOf t) where
  hour_lt := Nat.mod_lt _ (by decide)
  minute_lt := Nat.mod_lt _ (by decide)
  second_lt := Nat.mod_lt _ (by decide)
  time := (Bool.and_eq_true_iff.mp h).1

theorem matchesDay_of_matchesAt (h : c.matchesAt t = true) : c.matchesDay (dayOf t) = true :=
  (Bool.and_eq_true_iff.mp h).2

variable (h : TimeOf c hour minute second)
include h

theorem TimeOf.dayOf_eq : dayOf (instant day hour minute second) = day :=
  dayOf_instant h.hour_lt h.minute_lt h.second_lt

theorem TimeOf.hourOf_eq : hourOf (instant day hour minute second) = hour :=
  hourOf_instant h.hour_lt h.minute_lt h.second_lt

theorem TimeOf.matchesAt (hday : c.matchesDay day = true) :
    c.matchesAt (instant day hour minute second) = true := by
  rw [CronExpression.matchesAt, h.dayOf_eq, h.hourOf_eq,
    minuteOf_instant h.minute_lt h.second_lt, secondOf_instant h.second_lt, h.time, hday]
  rfl

end

theorem satisfiable_of_matchesAt {c : CronExpression} {t : ℕ}
    (h : c.matchesAt t = true) : c.Satisfiable := by
  have htime := timeOf_of_matchesAt h
  have hday := matchesDay_of_matchesAt h
  simp only [CronExpression.matchesDay, Bool.and_eq_true] at hday
  obtain ⟨⟨hdom, hmonth⟩, hweekday⟩ := hday
  have hle := (dayOfMonth_le (dayOf t)).trans (monthLength_le _)
  have hone := one_le_dayOfMonth (dayOf t)
  refine ⟨⟨_, htime.hour_lt, _, htime.minute_lt, _, htime.second_lt, htime.time⟩,
    ⟨dayOfMonth (dayOf t) - 1, by omega, ?_⟩,
    ⟨monthIndex (dayOf t) % 12, Nat.mod_lt _ (by decide), hmonth⟩,
    ⟨weekday (dayOf t), Nat.mod_lt _ (by decide), hweekday⟩⟩
  rwa [Nat.sub_add_cancel hone]

theorem exact_unique {v : ℤ} {low x y : ℕ} (hx : (CronField.exact v).matches low x = true)
    (hy : (CronField.exact v).matches low y = true) : x = y := by
  simp only [CronField.matches, beq_iff_eq] at hx hy
  omega

theorem tmod_natCast (a b n : ℕ) : ((a : ℤ) + (b : ℤ)).tmod n = ((a + b) % n : ℕ) := by
  rw [← Nat.cast_add, Int.ofNat_tmod]

/-! ## Hours -/

section
variable {n : ℤ} {N t : ℕ} {atMinute : Option ℤ} {draws : Draws}

theorem matchesAt_hours : (toCronExpression (.hours n atMinute) draws).matchesAt t = true
      ↔ (CronField.exact draws.second).matches 0 (secondOf t) = true ∧
        (CronField.exact (atMinute.getD draws.minute)).matches 0 (minuteOf t)
          = true ∧ n ∣ (hourOf t : ℤ) := by
  simp [CronExpression.matchesAt, CronExpression.matchesTime, CronExpression.matchesDay,
    CronExpression.matchesWeekday, toCronExpression, CronField.matches, and_assoc]

theorem hours_add (t k : ℕ) : secondOf (t + 3600 * k) = secondOf t ∧
    minuteOf (t + 3600 * k) = minuteOf t ∧ (t + 3600 * k) / 3600 = t / 3600 + k := by
  unfold secondOf minuteOf
  omega

theorem hours_unique {u : ℕ} (ht : (toCronExpression (.hours n atMinute) draws).matchesAt t = true)
    (hu : (toCronExpression (.hours n atMinute) draws).matchesAt u = true)
    (hsame : u / 3600 = t / 3600) : u = t := by
  obtain ⟨hts, htm, _⟩ := matchesAt_hours.mp ht
  obtain ⟨hus, hum, _⟩ := matchesAt_hours.mp hu
  have hsecond := exact_unique hus hts
  have hminute := exact_unique hum htm
  unfold secondOf at hsecond
  unfold minuteOf at hminute
  omega

theorem hours_more (h : (toCronExpression (.hours 1 atMinute) draws).matchesAt t = true) :
    ∃ v, (toCronExpression (.hours 1 atMinute) draws).matchesAt v = true ∧
      TypeInterval.hours.period t < TypeInterval.hours.period v := by
  obtain ⟨hs, hm, _⟩ := matchesAt_hours.mp h
  obtain ⟨hs', hm', hperiod⟩ := hours_add t 1
  refine ⟨t + 3600 * 1, matchesAt_hours.mpr ⟨by rwa [hs'], by rwa [hm'], one_dvd _⟩, ?_⟩
  simp only [TypeInterval.period, hperiod]
  exact Nat.lt_succ_self _

theorem hours_keeps (hdvd : N ∣ 24) (hpos : 0 < N) :
    (gateOf (toCronExpression (.hours N atMinute) draws) N .hours).Keeps
      TypeInterval.hours.period N := by
  refine Gate.keeps fun t ht => ?_
  have hhours : ∀ {u}, (toCronExpression (.hours N atMinute) draws).matchesAt u
      = true → N ∣ u / 3600 := fun hu =>
    (Nat.dvd_mod_iff hdvd).mp (Int.natCast_dvd_natCast.mp (matchesAt_hours.mp hu).2.2)
  obtain ⟨hs, hm, _⟩ := matchesAt_hours.mp ht
  obtain ⟨hs', hm', hperiod⟩ := hours_add t N
  have hfires : (toCronExpression (.hours N atMinute) draws).matchesAt (t + 3600 * N) = true := by
    refine matchesAt_hours.mpr ⟨by rwa [hs'], by rwa [hm'], ?_⟩
    rw [hourOf, hperiod, Int.natCast_dvd_natCast, Nat.dvd_mod_iff hdvd]
    exact Nat.dvd_add (hhours ht) (Nat.dvd_refl N)
  refine ⟨t + 3600 * N, by omega, hfires, ?_, ?_, ?_, fun u htu huv => ?_⟩
  · have hvalue : hourOf (t + 3600 * N) = (N + hourOf t) % 24 := by
      rw [hourOf, hourOf, hperiod, Nat.add_mod_mod, Nat.add_comm]
    simp only [gateOf, TypeInterval.current, TypeInterval.due, beq_iff_eq]
    rw [hvalue, ← tmod_natCast]
    rfl
  · simp only [TypeInterval.period, hperiod]
    exact Nat.lt_add_of_pos_right hpos
  · simp only [TypeInterval.period, hperiod]
    omega
  · -- a firing in between would lie less than N hours after t
    by_contra hu
    replace hu := Bool.eq_true_of_not_eq_false hu
    have hne : u / 3600 ≠ t / 3600 := fun h => htu.ne' (hours_unique ht hu h)
    have hne' : u / 3600 ≠ t / 3600 + N := fun h =>
      huv.ne (hours_unique hfires hu (h.trans hperiod.symm))
    have hle := Nat.le_of_dvd (by omega) (Nat.dvd_sub (hhours hu) (hhours ht))
    omega

theorem last_hour_missed : ∀ N < 24, 0 < N → ¬ N ∣ 24 →
    ∀ x < 24, N ∣ x → x ≠ (N + N * (23 / N)) % 24 := by
  decide

theorem hours_not_keeps {minute : ℕ} (hlt : N < 24) (hpos : 0 < N)
    (hdvd : ¬ N ∣ 24) (hminute : minute < 60)
    (hm : (CronField.exact (atMinute.getD draws.minute)).matches 0 minute = true) :
    ¬ (gateOf (toCronExpression (.hours N atMinute) draws) N .hours).Keeps
      TypeInterval.hours.period N := by
  set k := N * (23 / N)
  have hk : k < 24 := Nat.lt_succ_of_le (Nat.mul_div_le 23 N)
  have hNk : N ∣ k := Nat.dvd_mul_right N (23 / N)
  have hsecond := draws.second.isLt
  have hvalue : hourOf (instant 0 k minute draws.second) = k := hourOf_instant hk hminute hsecond
  have hfires : (toCronExpression (.hours N atMinute) draws).matchesAt
      (instant 0 k minute draws.second) = true := by
    rw [matchesAt_hours, secondOf_instant hsecond, minuteOf_instant hminute hsecond, hvalue]
    exact ⟨by simp [CronField.matches], hm, Int.natCast_dvd_natCast.mpr hNk⟩
  refine Gate.not_keeps_of_stuck (Gate.accepted_start hfires) fun v _ hv => ?_
  have hdv := Int.natCast_dvd_natCast.mp (matchesAt_hours.mp hv).2.2
  have hne := last_hour_missed N hlt hpos hdvd (hourOf v) (Nat.mod_lt _ (by decide)) hdv
  simp only [gateOf, TypeInterval.current, TypeInterval.due, beq_eq_false_iff_ne]
  rw [hvalue, show (24 : ℤ) = (24 : ℕ) from rfl, tmod_natCast]
  exact fun h => hne (Int.natCast_inj.mp h)

end

/-! ## Days -/

section
variable {n : ℤ} {N t hour minute second : ℕ} {atHour atMinute : Option ℤ}
  {draws : Draws}

theorem matchesDay_days (day : ℕ) :
    (toCronExpression (.days n atHour atMinute) draws).matchesDay day = true :=
  rfl

theorem days_more (h : (toCronExpression (.days 1 atHour atMinute) draws).matchesAt t = true) :
    ∃ v, (toCronExpression (.days 1 atHour atMinute) draws).matchesAt v = true ∧
      TypeInterval.days.period t < TypeInterval.days.period v := by
  have htime := timeOf_of_matchesAt h
  refine ⟨instant (dayOf t + 1) _ _ _, htime.matchesAt (matchesDay_days _), ?_⟩
  simp only [TypeInterval.period, htime.dayOf_eq]
  exact Nat.lt_succ_self _

theorem days_not_keeps (hlo : 2 ≤ N) (hhi : N ≤ 31)
    (htime : TimeOf (toCronExpression (.days N atHour atMinute) draws) hour minute second) :
    ¬ (gateOf (toCronExpression (.days N atHour atMinute) draws) N .days).Keeps
      TypeInterval.days.period N := by
  have hvalue : dayOfYear (yearStart 0 + (364 - N)) = 365 - N := by
    rw [dayOfYear_yearStart_add (by omega)]
    omega
  refine Gate.not_keeps_of_stuck (Gate.accepted_start
    (htime.matchesAt (matchesDay_days (yearStart 0 + (364 - N))))) fun v _ _ => ?_
  have hone := one_le_dayOfYear (dayOf v)
  simp only [gateOf, TypeInterval.current, TypeInterval.due, htime.dayOf_eq,
    hvalue, beq_eq_false_iff_ne]
  rw [show (365 : ℤ) = (365 : ℕ) from rfl, tmod_natCast,
    Nat.add_sub_cancel' (by omega : N ≤ 365), Nat.mod_self]
  omega

end

/-! ## Weeks -/

section
variable {n : ℤ} {t k x hour minute second : ℕ} {days : List ℤ}
  {atHour atMinute : Option ℤ} {draws : Draws}

theorem matchesDay_weeks {day day' : ℕ} (hsame : weekday day = weekday day') :
    (toCronExpression (.weeks n days atHour atMinute) draws).matchesDay day
      = (toCronExpression (.weeks n days atHour atMinute) draws).matchesDay day' :=
  congrArg (toCronExpression (.weeks n days atHour atMinute) draws).matchesWeekday hsame

theorem weeks_more (h : (toCronExpression (.weeks 1 days atHour atMinute) draws).matchesAt t
      = true) :
    ∃ v, (toCronExpression (.weeks 1 days atHour atMinute) draws).matchesAt v
        = true ∧ TypeInterval.weeks.period t < TypeInterval.weeks.period v := by
  have htime := timeOf_of_matchesAt h
  have hsame : weekday (dayOf t + 7) = weekday (dayOf t) := by
    unfold weekday
    omega
  refine ⟨instant (dayOf t + 7) _ _ _, htime.matchesAt
    ((matchesDay_weeks hsame).trans (matchesDay_of_matchesAt h)), ?_⟩
  simp only [TypeInterval.period, htime.dayOf_eq, weekIndex]
  omega

/-- The year 2022 had 53 weeks.  This is weekday `x` of the one numbered
    `k + 1`, where week 54 is the first of the next year. -/
def dayOf2022 (k x : ℕ) : ℕ := yearStart 2022 - 6 + 7 * k + x

theorem weekIndex_2022 : weekIndex (yearStart 2022) = 105503 := by
  rw [yearStart_eq]
  rfl

theorem weekIndex_2023 : weekIndex (yearStart 2023) = 105556 := by
  rw [yearStart_eq]
  rfl

theorem weekIndex_2024 : weekIndex (yearStart 2024) = 105608 := by
  rw [yearStart_eq]
  rfl

theorem weekIndex_dayOf2022 (hx : x < 7) : weekIndex (dayOf2022 k x) = 105503 + k := by
  rw [dayOf2022, yearStart_eq, weekIndex]
  omega

theorem weekday_dayOf2022 (hx : x < 7) : weekday (dayOf2022 k x) = x := by
  rw [dayOf2022, yearStart_eq, weekday]
  omega

theorem weekOfYear_2022 {day : ℕ} (hfrom : 105503 ≤ weekIndex day) (hto : weekIndex day < 105556) :
    weekOfYear day = weekIndex day - 105503 + 1 := by
  rw [weekOfYear_eq (y := 2022) (by rwa [weekIndex_2022]) (by rwa [weekIndex_2023]), weekIndex_2022]

theorem weekOfYear_2023 {day : ℕ} (h : weekIndex day = 105556) : weekOfYear day = 1 := by
  rw [weekOfYear_eq (y := 2023) (by rw [weekIndex_2023, h])
    (by rw [weekIndex_2024, h]; decide), weekIndex_2023, h]

theorem matchesAt_2022
    (htime : TimeOf (toCronExpression (.weeks n days atHour atMinute) draws) hour minute second)
    (hx : x < 7)
    (hday : (toCronExpression (.weeks n days atHour atMinute) draws).matchesWeekday x = true)
    (k : ℕ) :
    (toCronExpression (.weeks n days atHour atMinute) draws).matchesAt
      (instant (dayOf2022 k x) hour minute second) = true := by
  refine htime.matchesAt ?_
  have h : weekday (dayOf2022 k x) = x := weekday_dayOf2022 hx
  rw [← h] at hday
  exact hday

theorem current_weeks_2022 {v : ℕ} (hfrom : 105503 ≤ weekIndex (dayOf v))
    (hto : weekIndex (dayOf v) < 105556) :
    TypeInterval.weeks.current v = (weekIndex (dayOf v) : ℤ) - 105502 := by
  rw [TypeInterval.current, weekOfYear_2022 hfrom hto]
  omega

section
variable
  (htime : TimeOf (toCronExpression (.weeks n days atHour atMinute) draws)
    hour minute second) (hx : x < 7)
  (hday : (toCronExpression (.weeks n days atHour atMinute) draws).matchesWeekday x = true)
include htime hx hday

theorem weeks_missed {j : ℕ} (hj : 0 < j) (hk : k + j ≤ 52) (hfar : n ≤ j)
    (htarget : (n + (k + 1 : ℕ)).tmod 52 ≤ (k + 1 : ℕ)) :
    ¬ (gateOf (toCronExpression (.weeks n days atHour atMinute) draws) n
      .weeks).Keeps TypeInterval.weeks.period n := by
  set t := instant (dayOf2022 k x) hour minute second
  set u := instant (dayOf2022 (k + j) x) hour minute second
  have ht : weekIndex (dayOf t) = 105503 + k := by
    rw [htime.dayOf_eq, weekIndex_dayOf2022 hx]
  have hu : weekIndex (dayOf u) = 105503 + (k + j) := by
    rw [htime.dayOf_eq, weekIndex_dayOf2022 hx]
  have htu : t < u := TypeInterval.weeks.period_mono.reflect_lt
    (show weekIndex (dayOf t) < weekIndex (dayOf u) by omega)
  have hvalue : ∀ v, t ≤ v → v ≤ u → weekIndex (dayOf t) ≤ weekIndex (dayOf v) ∧
      TypeInterval.weeks.current v = (weekIndex (dayOf v) : ℤ) - 105502 := by
    intro v htv hvu
    have hfrom : weekIndex (dayOf t) ≤ weekIndex (dayOf v) := TypeInterval.weeks.period_mono htv
    have hto : weekIndex (dayOf v) ≤ weekIndex (dayOf u) := TypeInterval.weeks.period_mono hvu
    exact ⟨hfrom, current_weeks_2022 (by omega) (by omega)⟩
  have hvaluet : TypeInterval.weeks.current t = (k + 1 : ℕ) := by
    have h := (hvalue t (le_refl t) htu.le).2
    omega
  refine Gate.not_keeps_of_missed (Gate.accepted_start (matchesAt_2022 htime hx hday k)) htu
    (matchesAt_2022 htime hx hday (k + j)) ?_ ?_ ?_ ?_
  · show weekIndex (dayOf t) < weekIndex (dayOf u)
    omega
  · show n ≤ (weekIndex (dayOf u) : ℤ) - weekIndex (dayOf t)
    omega
  · intro v htv hvu _ hdue
    obtain ⟨hfrom, hv⟩ := hvalue v htv.le hvu
    simp only [gateOf, TypeInterval.due, Bool.or_eq_true, beq_iff_eq] at hdue ⊢
    rcases hdue with hdue | hdue
    · rw [hvaluet] at hdue ⊢
      omega
    · exact hdue
  · intro v htv hvu hlater
    have hv := (hvalue v htv.le hvu).2
    replace hlater : weekIndex (dayOf t) < weekIndex (dayOf v) := hlater
    show TypeInterval.weeks.current v ≠ TypeInterval.weeks.current t
    omega

theorem weeks_early (hk : 0 < k) (hnear : (k : ℤ) < n)
    (hdue : TypeInterval.weeks.due n 1 (TypeInterval.weeks.current
      (instant (dayOf2022 k x) hour minute second)) = true) :
    ¬ (gateOf (toCronExpression (.weeks n days atHour atMinute) draws) n
      .weeks).Keeps TypeInterval.weeks.period n := by
  set t := instant (dayOf2022 0 x) hour minute second
  set u := instant (dayOf2022 k x) hour minute second
  have ht : weekIndex (dayOf t) = 105503 + 0 := by
    rw [htime.dayOf_eq, weekIndex_dayOf2022 hx]
  have hu : weekIndex (dayOf u) = 105503 + k := by
    rw [htime.dayOf_eq, weekIndex_dayOf2022 hx]
  have hone : ∀ v, weekIndex (dayOf v) = weekIndex (dayOf t) →
      TypeInterval.weeks.current v = 1 := by
    intro v hv
    rw [current_weeks_2022 (by omega) (by omega)]
    omega
  have hlater : weekIndex (dayOf t) < weekIndex (dayOf u) := by omega
  refine Gate.not_keeps_of_early TypeInterval.weeks.period_mono
    (Gate.accepted_start (matchesAt_2022 htime hx hday 0))
    (TypeInterval.weeks.period_mono.reflect_lt hlater)
    (matchesAt_2022 htime hx hday k) hlater ?_ ?_ fun v _ _ hv => ?_
  · show (weekIndex (dayOf u) : ℤ) - weekIndex (dayOf t) < n
    omega
  · show TypeInterval.weeks.due n (TypeInterval.weeks.current t) _ = true
    rwa [hone t rfl]
  · exact (hone v hv).trans (hone t rfl).symm

theorem weeks_not_keeps (hzero : n ≠ 0) (hone : n ≠ 1) :
    ¬ (gateOf (toCronExpression (.weeks n days atHour atMinute) draws) n
      .weeks).Keeps TypeInterval.weeks.period n := by
  rcases lt_or_ge n 0 with hneg | hpos
  · refine weeks_missed htime hx hday (k := 0) (j := 1) (by decide) (by decide) (by omega) ?_
    have h := Int.tmod_nonneg 52 (show 0 ≤ -(n + (0 + 1 : ℕ)) by omega)
    rw [Int.neg_tmod] at h
    omega
  obtain ⟨N, rfl⟩ := Int.eq_ofNat_of_zero_le hpos
  rcases Nat.lt_or_ge N 52 with hlt | hge
  · -- the week before the year's last N waits for week 0
    refine weeks_missed htime hx hday (k := 51 - N) (j := N) (by omega) (by omega) (le_refl _) ?_
    rw [show (52 : ℤ) = (52 : ℕ) from rfl, tmod_natCast,
      show N + (51 - N + 1) = 52 by omega]
    omega
  rcases Nat.lt_or_ge N 53 with hlt' | hge'
  · -- week 1 waits for week 1, although week 53 is far enough
    obtain rfl : N = 52 := by omega
    exact weeks_missed htime hx hday (k := 0) (j := 52) (by decide)
      (by decide) (le_refl _) (by decide)
  rcases Nat.lt_or_ge N 54 with hlt'' | hge''
  · -- week 1 waits for week 2
    obtain rfl : N = 53 := by omega
    refine weeks_early htime hx hday (k := 1) (by decide) (by decide) ?_
    rw [TypeInterval.current, htime.dayOf_eq, weekOfYear_2022
      (by rw [weekIndex_dayOf2022 hx]; decide)
      (by rw [weekIndex_dayOf2022 hx]; decide), weekIndex_dayOf2022 hx]
    decide
  · -- week 1 of the next year has the same number
    refine weeks_early htime hx hday (k := 53) (by decide) (by omega) ?_
    rw [TypeInterval.current, htime.dayOf_eq, weekOfYear_2023 (weekIndex_dayOf2022 hx)]
    simp [TypeInterval.due]

end

end

/-! ## Months -/

section
variable {n : ℤ} {N t k hour minute second : ℕ}
  {atDay atHour atMinute : Option ℤ} {draws : Draws}

theorem matchesDay_months (day : ℕ) :
    (toCronExpression (.months n atDay atHour atMinute) draws).matchesDay day
        = true
      ↔ (CronField.exact (atDay.getD draws.dayOfMonth)).matches 1
          (dayOfMonth day) = true ∧ n ∣ (monthIndex day % 12 : ℕ) := by
  simp [CronExpression.matchesDay, CronExpression.matchesWeekday,
    toCronExpression, CronField.matches]

variable {d : ℕ}

section

variable (htime : TimeOf (toCronExpression (.months n atDay atHour atMinute) draws)
  hour minute second)
include htime

theorem matchesAt_months (hd : (CronField.exact (atDay.getD draws.dayOfMonth)).matches 1 (d + 1)
      = true) (hhas : d < monthLength k) (hk : n ∣ (k % 12 : ℕ)) :
    (toCronExpression (.months n atDay atHour atMinute) draws).matchesAt
      (instant (daysBefore k + d) hour minute second) = true := by
  refine htime.matchesAt ((matchesDay_months _).mpr ?_)
  rw [monthIndex_daysBefore_add hhas, dayOfMonth_daysBefore_add hhas]
  exact ⟨hd, hk⟩

theorem period_months (hhas : d < monthLength k) :
    TypeInterval.months.period (instant (daysBefore k + d) hour minute second) = k := by
  rw [TypeInterval.period, htime.dayOf_eq, monthIndex_daysBefore_add hhas]

end

theorem months_unique {u : ℕ}
    (ht : (toCronExpression (.months n atDay atHour atMinute) draws).matchesAt t = true)
    (hu : (toCronExpression (.months n atDay atHour atMinute) draws).matchesAt u
      = true) (hsame : monthIndex (dayOf u) = monthIndex (dayOf t)) : u = t := by
  have hdt := (matchesDay_months _).mp (matchesDay_of_matchesAt ht)
  have hdu := (matchesDay_months _).mp (matchesDay_of_matchesAt hu)
  have hday : dayOf u = dayOf t := by
    have hdom := exact_unique hdu.1 hdt.1
    have h₁ := day_eq (dayOf t)
    have h₂ := day_eq (dayOf u)
    rw [hsame, hdom] at h₂
    omega
  have htt := (timeOf_of_matchesAt ht).time
  have htu := (timeOf_of_matchesAt hu).time
  simp only [CronExpression.matchesTime, Bool.and_eq_true] at htt htu
  rw [← instant_eq u, ← instant_eq t, hday, exact_unique htu.1.1 htt.1.1,
    exact_unique htu.1.2 htt.1.2, exact_unique htu.2 htt.2]

theorem months_more
    (h : (toCronExpression (.months 1 atDay atHour atMinute) draws).matchesAt t = true) :
    ∃ v, (toCronExpression (.months 1 atDay atHour atMinute) draws).matchesAt v
        = true ∧ TypeInterval.months.period t < TypeInterval.months.period v := by
  have htime := timeOf_of_matchesAt h
  have hone := one_le_dayOfMonth (dayOf t)
  have hle := (dayOfMonth_le (dayOf t)).trans (monthLength_le _)
  have hday := ((matchesDay_months _).mp (matchesDay_of_matchesAt h)).1
  rw [← Nat.sub_add_cancel hone] at hday
  -- January of the next year has every day
  have hhas : dayOfMonth (dayOf t) - 1 < monthLength (12 * (year (dayOf t) + 1)) := by
    rw [monthLength_january]
    omega
  refine ⟨_, matchesAt_months htime hday hhas (one_dvd _), ?_⟩
  rw [period_months htime hhas, TypeInterval.period, year]
  omega

theorem monthLength_mod (h : k % 12 ≠ 1) : monthLength k = monthLength (k % 12) := by
  rw [monthLength, monthLength, Nat.mod_mod, if_neg h, if_neg h]

theorem monthLength_ge_thirty (h : k % 12 ≠ 1) : 30 ≤ monthLength k := by
  rw [monthLength, if_neg h]
  split_ifs <;> decide

theorem monthLength_of_six (h : 6 ∣ k) : monthLength k = 31 := by
  unfold monthLength
  split_ifs <;> omega

theorem ne_february (hlo : 2 ≤ N) (h : N ∣ k % 12) : k % 12 ≠ 1 := by
  intro hone
  rw [hone, Nat.dvd_one] at h
  omega

/-- Months that divide the year and all have the day: the next firing is that
    many months later. -/
theorem months_keeps (hdvd : N ∣ 12) (hlo : 2 ≤ N)
    (hday : atDay.getD draws.dayOfMonth = 31 → N = 6 ∨ N = 12) :
    (gateOf (toCronExpression (.months N atDay atHour atMinute) draws) N
      .months).Keeps TypeInterval.months.period N := by
  refine Gate.keeps fun t ht => ?_
  have hmonths : ∀ {u}, (toCronExpression (.months N atDay atHour atMinute)
      draws).matchesAt u = true → N ∣ monthIndex (dayOf u) := fun hu =>
    (Nat.dvd_mod_iff hdvd).mp (Int.natCast_dvd_natCast.mp
      ((matchesDay_months _).mp (matchesDay_of_matchesAt hu)).2)
  have htime := timeOf_of_matchesAt ht
  have hone := one_le_dayOfMonth (dayOf t)
  have hdom := ((matchesDay_months _).mp (matchesDay_of_matchesAt ht)).1
  set k := monthIndex (dayOf t) with hk
  set d := dayOfMonth (dayOf t) - 1 with hd
  have hNk : N ∣ (k + N) % 12 :=
    (Nat.dvd_mod_iff hdvd).mpr (Nat.dvd_add (hmonths ht) (Nat.dvd_refl N))
  have hhas : d < monthLength (k + N) := by
    have hle := (dayOfMonth_le (dayOf t)).trans (monthLength_le _)
    have hthirty := monthLength_ge_thirty (ne_february hlo hNk)
    by_cases hlong : atDay.getD draws.dayOfMonth = 31
    · have hsix : 6 ∣ k + N := by
        have hNk' := Nat.dvd_add (hmonths ht) (Nat.dvd_refl N)
        rcases hday hlong with rfl | rfl
        · exact hNk'
        · exact (show 6 ∣ 12 by decide).trans hNk'
      rw [monthLength_of_six hsix]
      omega
    · simp only [CronField.matches, beq_iff_eq] at hdom
      omega
  have hfires := matchesAt_months htime hdom hhas (Int.natCast_dvd_natCast.mpr hNk)
  have hperiod := period_months htime hhas
  set v := instant (daysBefore (k + N) + d) (hourOf t) (minuteOf t) (secondOf t)
  have hmonth : monthIndex (dayOf v) = k + N := hperiod
  have htv : t < v := TypeInterval.months.period_mono.reflect_lt
    (show k < monthIndex (dayOf v) by omega)
  refine ⟨v, htv, hfires, ?_, ?_, ?_, fun u htu huv => ?_⟩
  · simp only [gateOf, TypeInterval.current, TypeInterval.due, beq_iff_eq]
    rw [hmonth, show (12 : ℤ) = (12 : ℕ) from rfl, tmod_natCast, Nat.add_mod_mod, Nat.add_comm]
  · show k < monthIndex (dayOf v)
    omega
  · show (N : ℤ) ≤ (monthIndex (dayOf v) : ℤ) - k
    omega
  · -- a firing in between would lie less than N months after t
    by_contra hu
    replace hu := Bool.eq_true_of_not_eq_false hu
    have hle : k ≤ monthIndex (dayOf u) := TypeInterval.months.period_mono htu.le
    have hle' : monthIndex (dayOf u) ≤ monthIndex (dayOf v) :=
      TypeInterval.months.period_mono huv.le
    have hne : monthIndex (dayOf u) ≠ k := fun h =>
      htu.ne' (months_unique ht hu h)
    have hne' : monthIndex (dayOf u) ≠ k + N := fun h =>
      huv.ne (months_unique hfires hu (h.trans hmonth.symm))
    have hstep := Nat.le_of_dvd (by omega) (Nat.dvd_sub (hmonths hu) (hmonths ht))
    omega

section

variable (htime : TimeOf (toCronExpression (.months N atDay atHour atMinute) draws)
  hour minute second)
  (hd : (CronField.exact (atDay.getD draws.dayOfMonth)).matches 1 (d + 1) = true)
include htime hd

theorem months_stuck (hlo : 2 ≤ N) (hhas : d < monthLength k) (hlt : k < 12) (hk : N ∣ k)
    (hmiss : ∀ x < 12, N ∣ x → d < monthLength x → x ≠ (N + k) % 12) :
    ¬ (gateOf (toCronExpression (.months N atDay atHour atMinute) draws) N
      .months).Keeps TypeInterval.months.period N := by
  have hfires := matchesAt_months htime hd hhas (by
    rw [Nat.mod_eq_of_lt hlt]
    exact Int.natCast_dvd_natCast.mpr hk)
  have hmonth := period_months htime hhas
  refine Gate.not_keeps_of_stuck (Gate.accepted_start hfires) fun v _ hv => ?_
  obtain ⟨hdom, hmod⟩ := (matchesDay_months _).mp (matchesDay_of_matchesAt hv)
  replace hmod := Int.natCast_dvd_natCast.mp hmod
  have hlong : d < monthLength (monthIndex (dayOf v) % 12) := by
    have hle := dayOfMonth_le (dayOf v)
    rw [← exact_unique hd hdom, monthLength_mod (ne_february hlo hmod)] at hle
    exact hle
  have hne := hmiss _ (Nat.mod_lt _ (by decide)) hmod hlong
  simp only [gateOf, TypeInterval.current, TypeInterval.due, beq_eq_false_iff_ne]
  rw [show monthIndex (dayOf (instant (daysBefore k + d) hour minute second)) = k
    from hmonth, Nat.mod_eq_of_lt hlt, show (12 : ℤ) = (12 : ℕ) from rfl, tmod_natCast]
  exact fun h => hne (Int.natCast_inj.mp h)

theorem months_early (hlt : d < 31) (hdvd : 12 ∣ N) (hlo : 12 < N) :
    ¬ (gateOf (toCronExpression (.months N atDay atHour atMinute) draws) N
      .months).Keeps TypeInterval.months.period N := by
  have hhas : ∀ y, d < monthLength (12 * y) := by
    intro y
    rwa [monthLength_january]
  have hfires : ∀ y, (toCronExpression (.months N atDay atHour atMinute)
      draws).matchesAt (instant (daysBefore (12 * y) + d) hour minute second) = true := by
    intro y
    refine matchesAt_months htime hd (hhas y) ?_
    rw [Nat.mul_mod_right]
    exact dvd_zero _
  have hmonth : ∀ y, TypeInterval.months.period
      (instant (daysBefore (12 * y) + d) hour minute second) = 12 * y :=
    fun y => period_months htime (hhas y)
  have hlater : TypeInterval.months.period (instant (daysBefore (12 * 0) + d) hour minute second)
      < TypeInterval.months.period (instant (daysBefore (12 * 1) + d) hour minute second) := by
    rw [hmonth, hmonth]
    decide
  refine Gate.not_keeps_of_early TypeInterval.months.period_mono (Gate.accepted_start (hfires 0))
    (TypeInterval.months.period_mono.reflect_lt hlater) (hfires 1) hlater ?_ ?_ fun v _ _ hv => ?_
  · rw [hmonth, hmonth]
    omega
  · have hvalue : ∀ y, TypeInterval.months.current
        (instant (daysBefore (12 * y) + d) hour minute second) = (0 : ℕ) := by
      intro y
      have h := hmonth y
      rw [TypeInterval.period] at h
      rw [TypeInterval.current, h, Nat.mul_mod_right]
    simp only [gateOf, TypeInterval.due, hvalue, beq_iff_eq]
    rw [show (12 : ℤ) = (12 : ℕ) from rfl, tmod_natCast, Nat.add_zero, Nat.mod_eq_zero_of_dvd hdvd]
  · simp only [gateOf, TypeInterval.current]
    rw [show monthIndex (dayOf v) = _ from hv]
    rfl

end

theorem last_month_missed : ∀ N < 12, 2 ≤ N → ¬ N ∣ 12 →
    ∀ x < 12, N ∣ x → x ≠ (N + N * (11 / N)) % 12 := by
  decide

/-- A month with day 31 that waits for one without a firing on day 31. -/
def longMonth (N : ℕ) : ℕ :=
  if N = 2 then 6 else if N = 4 ∨ N = 7 ∨ N = 9 ∨ N = 11 then N else 0

theorem longMonth_spec : ∀ N < 12, 2 ≤ N →
    longMonth N < 12 ∧ N ∣ longMonth N ∧ monthLength (longMonth N) = 31 := by
  decide

set_option synthInstance.maxSize 1000 in
theorem longMonth_missed : ∀ N < 12, 2 ≤ N → N ≠ 6 →
    ∀ x < 12, N ∣ x → monthLength x = 31 → x ≠ (N + longMonth N) % 12 := by
  decide

/-- The other numbers of months do not keep firing. -/
theorem months_not_keeps
    (htime : TimeOf (toCronExpression (.months N atDay atHour atMinute) draws) hour minute second)
    (hd : (CronField.exact (atDay.getD draws.dayOfMonth)).matches 1 (d + 1)
      = true) (hlt : d < 31) (hlo : 2 ≤ N)
    (hnot : ¬ (N ∣ 12 ∧ (atDay.getD draws.dayOfMonth = 31 → N = 6 ∨ N = 12))) :
    ¬ (gateOf (toCronExpression (.months N atDay atHour atMinute) draws) N
      .months).Keeps TypeInterval.months.period N := by
  have hd31 : atDay.getD draws.dayOfMonth = (d : ℤ) + 1 := by
    simp only [CronField.matches, beq_iff_eq] at hd
    omega
  rcases Nat.lt_or_ge 12 N with hbig | hsmall
  · by_cases hdvd : 12 ∣ N
    · exact months_early htime hd hlt hdvd hbig
    · -- only January fires, and the check waits for another month
      refine months_stuck htime hd hlo (k := 0) hlt (by decide) (dvd_zero N) fun x hx hNx _ => ?_
      have hzero := Nat.eq_zero_of_dvd_of_lt hNx (hx.trans hbig)
      omega
  have hcase : N ∣ 12 → d = 30 ∧ N < 5 := by
    intro hdvd
    by_contra hcon
    refine hnot ⟨hdvd, fun h31 => ?_⟩
    interval_cases N <;> omega
  have hlt12 : N < 12 := by
    refine lt_of_le_of_ne hsmall fun h => ?_
    have hlt5 := (hcase (h ▸ dvd_refl N)).2
    omega
  rcases Nat.lt_or_ge d 30 with hshort | hlong
  · have hdvd : ¬ N ∣ 12 := fun h => (Nat.ne_of_lt hshort) (hcase h).1
    have hk := Nat.lt_succ_of_le (Nat.mul_div_le 11 N)
    have hNk := Nat.dvd_mul_right N (11 / N)
    refine months_stuck htime hd hlo ?_ hk hNk fun x hx hNx _ =>
      last_month_missed N hlt12 hlo hdvd x hx hNx
    have hmod := Nat.mod_eq_of_lt hk
    exact hshort.trans_le (monthLength_ge_thirty (ne_february hlo (hmod.symm ▸ hNk)))
  · obtain ⟨hk, hNk, hlen⟩ := longMonth_spec N hlt12 hlo
    refine months_stuck htime hd hlo (by omega) hk hNk fun x hx hNx hdx => ?_
    have hle := monthLength_le x
    have hsix : N ≠ 6 := by
      rintro rfl
      exact absurd (hcase (by decide)).2 (by decide)
    exact longMonth_missed N hlt12 hlo hsix x hx hNx (by omega)

end

/-! ## Which intervals last -/

/-- Hours that divide the day, single days and weeks, and months that divide
    the year and all have the day of the month. -/
def Lasts (interval : ScheduleInterval) (draws : Draws) : Prop :=
  match interval with
  | .hours n _ => n ∣ 24
  | .days n _ _ => n = 1
  | .weeks n _ _ _ => n = 1
  | .months n atDay _ _ =>
    n ∣ 12 ∧ (atDay.getD draws.dayOfMonth = 31 → n = 1 ∨ n = 6 ∨ n = 12)
  | .cronExpression _ | .seconds _ | .minutes _ => True

instance (interval : ScheduleInterval) (draws : Draws) :
    Decidable (Lasts interval draws) :=
  match interval with
  | .hours _ _ => inferInstanceAs (Decidable (_ ∣ _))
  | .days _ _ _ => inferInstanceAs (Decidable (_ = _))
  | .weeks _ _ _ _ => inferInstanceAs (Decidable (_ = _))
  | .months _ _ _ _ => inferInstanceAs (Decidable (_ ∧ _))
  | .cronExpression _ | .seconds _ | .minutes _ => isTrue trivial

theorem validationMessage_eq {i : ℕ} {interval : ScheduleInterval}
    (h : validateInterval i interval = .ok ()) :
    validationMessage interval = "" := by
  by_contra hmsg
  rw [validateInterval, if_neg hmsg] at h
  cases h

variable {atMinute : Option ℤ}

theorem validate_hours {i : ℕ} {n : ℤ}
    (h : validateInterval i (.hours n atMinute) = .ok ()) : 1 ≤ n ∧ n ≤ 23 := by
  by_contra hcon
  have hmsg := validationMessage_eq h
  rw [validationMessage, if_pos (by omega)] at hmsg
  exact absurd hmsg (by decide)

theorem validate_days {i : ℕ} {n : ℤ} {atHour : Option ℤ}
    (h : validateInterval i (.days n atHour atMinute) = .ok ()) :
    1 ≤ n ∧ n ≤ 31 := by
  by_contra hcon
  have hmsg := validationMessage_eq h
  rw [validationMessage, if_pos (by omega)] at hmsg
  exact absurd hmsg (by decide)

theorem validate_months {i : ℕ} {n : ℤ} {atDay atHour : Option ℤ}
    (h : validateInterval i (.months n atDay atHour atMinute) = .ok ()) :
    1 ≤ n := by
  by_contra hcon
  have hmsg := validationMessage_eq h
  rw [validationMessage, if_pos (by omega)] at hmsg
  exact absurd hmsg (by decide)

section
variable {intervals : List (ScheduleInterval × Draws)} {i : ℕ} {draws : Draws}
  {n : ℤ} {atDay atHour atMinute : Option ℤ} {days : List ℤ}

theorem keeps_hours_iff (hi : intervals[i]? = some (.hours n atMinute, draws))
    (hvalid : validateInterval i (.hours n atMinute) = .ok ())
    (hsat : (toCronExpression (.hours n atMinute) draws).Satisfiable) :
    Keeps intervals i (toCronExpression (.hours n atMinute) draws) .hours n ↔ n ∣ 24 := by
  obtain ⟨hlo, hhi⟩ := validate_hours hvalid
  obtain ⟨N, rfl⟩ := Int.eq_ofNat_of_zero_le (by omega : 0 ≤ n)
  rcases eq_or_ne N 1 with rfl | hone
  · exact iff_of_true (keeps_of_one hi rfl rfl fun t => hours_more) (one_dvd _)
  rw [keeps_iff_gate hi rfl (by omega) (by omega),
    show (24 : ℤ) = (24 : ℕ) from rfl, Int.natCast_dvd_natCast]
  constructor
  · intro hkeeps
    by_contra hdvd
    obtain ⟨⟨_, _, minute, hminute, _, _, htime⟩, _⟩ := hsat
    simp only [CronExpression.matchesTime, Bool.and_eq_true] at htime
    exact hours_not_keeps (by omega) (by omega) hdvd hminute htime.1.2 hkeeps
  · exact fun hdvd => hours_keeps hdvd (by omega)

theorem keeps_days_iff (hi : intervals[i]? = some (.days n atHour atMinute, draws))
    (hvalid : validateInterval i (.days n atHour atMinute) = .ok ())
    (hsat : (toCronExpression (.days n atHour atMinute) draws).Satisfiable) :
    Keeps intervals i (toCronExpression (.days n atHour atMinute) draws) .days n ↔ n = 1 := by
  obtain ⟨hlo, hhi⟩ := validate_days hvalid
  obtain ⟨N, rfl⟩ := Int.eq_ofNat_of_zero_le (by omega : 0 ≤ n)
  rcases eq_or_ne N 1 with rfl | hone
  · exact iff_of_true (keeps_of_one hi rfl rfl fun t => days_more) rfl
  rw [keeps_iff_gate hi rfl (by omega) (by omega)]
  obtain ⟨⟨_, hh, _, hm, _, hs, htime⟩, _⟩ := hsat
  exact iff_of_false (days_not_keeps (by omega) (by omega) ⟨hh, hm, hs, htime⟩) (by omega)

theorem keeps_weeks_iff (hi : intervals[i]? = some (.weeks n days atHour atMinute, draws))
    (hsat : (toCronExpression (.weeks n days atHour atMinute) draws).Satisfiable) :
    Keeps intervals i (toCronExpression (.weeks n days atHour atMinute) draws)
      .weeks n ↔ n = 1 := by
  rcases eq_or_ne n 1 with rfl | hone
  · exact iff_of_true (keeps_of_one hi rfl rfl fun t => weeks_more) rfl
  obtain ⟨⟨_, hh, _, hm, _, hs, htime⟩, _, _, x, hx, hday⟩ := hsat
  have hat : TimeOf _ _ _ _ := ⟨hh, hm, hs, htime⟩
  refine iff_of_false ?_ hone
  rcases eq_or_ne n 0 with rfl | hzero
  · exact not_keeps_of_zero hi rfl rfl (matchesAt_2022 hat hx hday 0)
  · rw [keeps_iff_gate hi rfl hzero hone]
    exact weeks_not_keeps hat hx hday hzero hone

theorem keeps_months_iff (hi : intervals[i]? = some (.months n atDay atHour atMinute, draws))
    (hvalid : validateInterval i (.months n atDay atHour atMinute) = .ok ())
    (hsat : (toCronExpression (.months n atDay atHour atMinute) draws).Satisfiable) :
    Keeps intervals i (toCronExpression (.months n atDay atHour atMinute) draws) .months n
      ↔ n ∣ 12 ∧ (atDay.getD draws.dayOfMonth = 31 → n = 1 ∨ n = 6 ∨ n = 12) := by
  have hlo := validate_months hvalid
  obtain ⟨N, rfl⟩ := Int.eq_ofNat_of_zero_le (by omega : 0 ≤ n)
  rcases eq_or_ne N 1 with rfl | hone
  · exact iff_of_true (keeps_of_one hi rfl rfl fun t => months_more)
      ⟨one_dvd _, fun _ => Or.inl rfl⟩
  rw [keeps_iff_gate hi rfl (by omega) (by omega),
    show (12 : ℤ) = (12 : ℕ) from rfl, Int.natCast_dvd_natCast]
  constructor
  · intro hkeeps
    by_contra hnot
    obtain ⟨⟨_, hh, _, hm, _, hs, htime⟩, ⟨d, hd, hdom⟩, _⟩ := hsat
    refine months_not_keeps ⟨hh, hm, hs, htime⟩ hdom hd (by omega)
      (fun hN => hnot ⟨hN.1, fun h31 => ?_⟩) hkeeps
    omega
  · rintro ⟨hdvd, hday⟩
    refine months_keeps hdvd (by omega) fun h31 => ?_
    omega

end

end N8nScheduleIntervals
