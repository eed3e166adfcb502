import Mathlib.Tactic.Common
import Mathlib.Order.Monotone.Basic

/-! # The Gregorian calendar of an evenly running local clock

    An instant is a number of seconds since the midnight that began
    1 January of the year 0, a Saturday.  Months are counted on from January
    of the year 0, so month `n` is month `n % 12` of the year `n / 12`; days
    and weeks, which begin on Sunday, are counted on from that same midnight.

    The heart is the FLOOR PROPERTY of the month count: the month of a day is
    the only one that begins on or before it and whose successor begins after
    it.  Day of the month, day of the year and week of the year are read off
    it, and the beginning of a year has a closed form. -/

namespace N8nCalendar

/-! ## Months and their days -/

def isLeapYear (y : ℕ) : Bool := y % 4 == 0 && (y % 100 != 0 || y % 400 == 0)

/-- How many days month `n` has. -/
def monthLength (n : ℕ) : ℕ :=
  if n % 12 = 1 then (if isLeapYear (n / 12) then 29 else 28)
  else if n % 12 = 3 ∨ n % 12 = 5 ∨ n % 12 = 8 ∨ n % 12 = 10 then 30
  else 31

/-- How many days lie before month `n`. -/
def daysBefore : ℕ → ℕ
  | 0 => 0
  | n + 1 => daysBefore n + monthLength n

theorem monthLength_ge (n : ℕ) : 28 ≤ monthLength n := by
  unfold monthLength
  split_ifs <;> omega

theorem monthLength_le (n : ℕ) : monthLength n ≤ 31 := by
  unfold monthLength
  split_ifs <;> omega

theorem monthLength_january (y : ℕ) : monthLength (12 * y) = 31 := by
  have h : 12 * y % 12 = 0 := Nat.mul_mod_right 12 y
  simp [monthLength, h]

@[simp] theorem daysBefore_succ (n : ℕ) : daysBefore (n + 1) = daysBefore n + monthLength n := rfl

theorem daysBefore_strictMono : StrictMono daysBefore := by
  refine strictMono_nat_of_lt_succ fun n => ?_
  have h := monthLength_ge n
  rw [daysBefore_succ]
  omega

/-- Walks on from month `n` while the days left over fill it. -/
def locate : ℕ → ℕ → ℕ → ℕ
  | 0, n, _ => n
  | fuel + 1, n, rest =>
    if rest < monthLength n then n
    else locate fuel (n + 1) (rest - monthLength n)

theorem locate_floor : ∀ {fuel n rest : ℕ}, rest ≤ fuel →
    daysBefore (locate fuel n rest) ≤ daysBefore n + rest ∧
      daysBefore n + rest < daysBefore (locate fuel n rest + 1)
  | 0, n, rest, hfuel => by
      have h := monthLength_ge n
      rw [locate, daysBefore_succ]
      omega
  | fuel + 1, n, rest, hfuel => by
      have h := monthLength_ge n
      unfold locate
      split_ifs with hin
      · rw [daysBefore_succ]
        omega
      · have hleft : rest - monthLength n ≤ fuel := by omega
        have ih := @locate_floor fuel (n + 1) (rest - monthLength n) hleft
        rw [daysBefore_succ] at ih
        omega

/-- The month a day lies in. -/
def monthIndex (day : ℕ) : ℕ := locate day 0 day

/-- **THE FLOOR PROPERTY**: a day lies in the month that begins on or before
    it and whose successor begins after it. -/
theorem monthIndex_floor (day : ℕ) :
    daysBefore (monthIndex day) ≤ day ∧ day < daysBefore (monthIndex day + 1) := by
  have h := locate_floor (n := 0) (le_refl day)
  rw [show daysBefore 0 = 0 from rfl, Nat.zero_add] at h
  exact h

variable {day n : ℕ}

theorem monthIndex_eq_iff : monthIndex day = n ↔ daysBefore n ≤ day ∧ day < daysBefore (n + 1) := by
  constructor
  · rintro rfl
    exact monthIndex_floor day
  · rintro ⟨hle, hlt⟩
    obtain ⟨hle', hlt'⟩ := monthIndex_floor day
    have h₁ := daysBefore_strictMono.lt_iff_lt.mp (hle.trans_lt hlt')
    have h₂ := daysBefore_strictMono.lt_iff_lt.mp (hle'.trans_lt hlt)
    omega

theorem monthIndex_mono : Monotone monthIndex := by
  intro a b hab
  have ha := (monthIndex_floor a).1
  have hb := (monthIndex_floor b).2
  have h := daysBefore_strictMono.lt_iff_lt.mp ((ha.trans hab).trans_lt hb)
  omega

variable {d : ℕ}

theorem monthIndex_daysBefore_add (hd : d < monthLength n) : monthIndex (daysBefore n + d) = n := by
  rw [monthIndex_eq_iff, daysBefore_succ]
  omega

def dayOfMonth (day : ℕ) : ℕ := day - daysBefore (monthIndex day) + 1

theorem dayOfMonth_daysBefore_add (hd : d < monthLength n) :
    dayOfMonth (daysBefore n + d) = d + 1 := by
  rw [dayOfMonth, monthIndex_daysBefore_add hd, Nat.add_sub_cancel_left]

theorem day_eq (day : ℕ) : day + 1 = daysBefore (monthIndex day) + dayOfMonth day := by
  have h := (monthIndex_floor day).1
  unfold dayOfMonth
  omega

theorem dayOfMonth_le (day : ℕ) : dayOfMonth day ≤ monthLength (monthIndex day) := by
  have h := (monthIndex_floor day).2
  have heq := day_eq day
  rw [daysBefore_succ] at h
  omega

theorem one_le_dayOfMonth (day : ℕ) : 1 ≤ dayOfMonth day := Nat.le_add_left 1 _

/-! ## Years -/

/-- The year a day lies in. -/
def year (day : ℕ) : ℕ := monthIndex day / 12

/-- The first day of a year. -/
def yearStart (y : ℕ) : ℕ := daysBefore (12 * y)

def dayOfYear (day : ℕ) : ℕ := day - yearStart (year day) + 1

theorem yearStart_succ (y : ℕ) :
    yearStart (y + 1) = yearStart y + (if isLeapYear y then 366 else 365) := by
  have hlen : ∀ k < 12, monthLength (12 * y + k)
      = if k = 1 then (if isLeapYear y then 29 else 28)
        else if k = 3 ∨ k = 5 ∨ k = 8 ∨ k = 10 then 30 else 31 := by
    intro k hk
    have hmod : (12 * y + k) % 12 = k := by omega
    rw [monthLength, hmod, show (12 * y + k) / 12 = y by omega]
  have h : yearStart (y + 1) = yearStart y + (monthLength (12 * y + 0)
      + monthLength (12 * y + 1) + monthLength (12 * y + 2)
      + monthLength (12 * y + 3) + monthLength (12 * y + 4)
      + monthLength (12 * y + 5) + monthLength (12 * y + 6)
      + monthLength (12 * y + 7) + monthLength (12 * y + 8)
      + monthLength (12 * y + 9) + monthLength (12 * y + 10)
      + monthLength (12 * y + 11)) := by
    rw [yearStart, yearStart, show 12 * (y + 1) = 12 * y + 11 + 1 by omega]
    simp only [daysBefore_succ, Nat.add_zero]
    omega
  rw [h]
  simp only [hlen, Nat.reduceLT, Nat.reduceEqDiff, reduceIte, or_self, or_true, true_or]
  split_ifs <;> omega

theorem yearStart_eq (y : ℕ) :
    yearStart y = 365 * y + (y + 3) / 4 - (y + 99) / 100 + (y + 399) / 400 := by
  induction y with
  | zero => rfl
  | succ y ih =>
    rw [yearStart_succ, ih]
    simp only [isLeapYear, Bool.and_eq_true, Bool.or_eq_true, beq_iff_eq, bne_iff_ne]
    split_ifs with h <;> omega

variable {y : ℕ}

theorem year_eq_iff : year day = y ↔ yearStart y ≤ day ∧ day < yearStart (y + 1) := by
  obtain ⟨hle, hlt⟩ := monthIndex_floor day
  have hmono : ∀ a b, a ≤ b → daysBefore a ≤ daysBefore b :=
    fun a b h => daysBefore_strictMono.monotone h
  constructor
  · rintro rfl
    have h₁ := hmono (12 * year day) (monthIndex day) (by unfold year; omega)
    have h₂ := hmono (monthIndex day + 1) (12 * (year day + 1)) (by unfold year; omega)
    exact ⟨h₁.trans hle, hlt.trans_le h₂⟩
  · rintro ⟨hfrom, hto⟩
    have h₁ := daysBefore_strictMono.lt_iff_lt.mp (hfrom.trans_lt hlt)
    have h₂ := daysBefore_strictMono.lt_iff_lt.mp (hle.trans_lt hto)
    unfold year
    omega

theorem one_le_dayOfYear (day : ℕ) : 1 ≤ dayOfYear day := Nat.le_add_left 1 _

theorem dayOfYear_yearStart_add (hd : d < 365) : dayOfYear (yearStart y + d) = d + 1 := by
  have hyear : year (yearStart y + d) = y := by
    rw [year_eq_iff, yearStart_succ]
    split_ifs <;> omega
  rw [dayOfYear, hyear, Nat.add_sub_cancel_left]

/-! ## Weeks -/

/-- The day of the week, from Sunday, which is 0. -/
def weekday (day : ℕ) : ℕ := (day + 6) % 7

/-- How many Sundays lie on or before a day. -/
def weekIndex (day : ℕ) : ℕ := (day + 6) / 7

/-- The week of the year: week 1 is the one that holds 1 January, and the
    last days of December lie in it when it has begun. -/
def weekOfYear (day : ℕ) : ℕ :=
  if weekIndex day = weekIndex (yearStart (year day + 1)) then 1
  else weekIndex day - weekIndex (yearStart (year day)) + 1

theorem weekIndex_mono : Monotone weekIndex :=
  fun _ _ h => Nat.div_le_div_right (Nat.add_le_add_right h 6)

theorem weekOfYear_eq (hfrom : weekIndex (yearStart y) ≤ weekIndex day)
    (hto : weekIndex day < weekIndex (yearStart (y + 1))) :
    weekOfYear day = weekIndex day - weekIndex (yearStart y) + 1 := by
  have hend : day < yearStart (y + 1) := by
    by_contra hge
    have h := weekIndex_mono (Nat.not_lt.mp hge)
    omega
  rcases Nat.lt_or_ge day (yearStart y) with hbefore | hin
  · -- a day of December in the week of the next 1 January
    have hsame : weekIndex day = weekIndex (yearStart y) :=
      le_antisymm (weekIndex_mono hbefore.le) hfrom
    obtain ⟨z, rfl⟩ : ∃ z, y = z + 1 := by
      refine Nat.exists_eq_succ_of_ne_zero fun hzero => ?_
      rw [hzero] at hbefore
      exact Nat.not_lt_zero day hbefore
    have hnear : yearStart (z + 1) < day + 7 := by
      unfold weekIndex at hsame
      omega
    have hyear : year day = z := by
      rw [year_eq_iff]
      refine ⟨?_, hbefore⟩
      have h := yearStart_succ z
      split_ifs at h <;> omega
    rw [weekOfYear, hyear, if_pos hsame, hsame, Nat.sub_self]
  · have hyear : year day = y := year_eq_iff.mpr ⟨hin, hend⟩
    rw [weekOfYear, hyear, if_neg (Nat.ne_of_lt hto)]

/-! ## Instants -/

/-- The day an instant lies in. -/
def dayOf (t : ℕ) : ℕ := t / 86400

def hourOf (t : ℕ) : ℕ := t / 3600 % 24

def minuteOf (t : ℕ) : ℕ := t / 60 % 60

def secondOf (t : ℕ) : ℕ := t % 60

/-- The instant of a day at a time of day. -/
def instant (day hour minute second : ℕ) : ℕ := 86400 * day + 3600 * hour + 60 * minute + second

section
variable {day hour minute second : ℕ}

theorem dayOf_instant (hh : hour < 24) (hm : minute < 60) (hs : second < 60) :
    dayOf (instant day hour minute second) = day := by
  unfold dayOf instant
  omega

theorem hourOf_instant (hh : hour < 24) (hm : minute < 60) (hs : second < 60) :
    hourOf (instant day hour minute second) = hour := by
  unfold hourOf instant
  omega

theorem minuteOf_instant (hm : minute < 60) (hs : second < 60) :
    minuteOf (instant day hour minute second) = minute := by
  unfold minuteOf instant
  omega

theorem secondOf_instant (hs : second < 60) :
    secondOf (instant day hour minute second) = second := by
  unfold secondOf instant
  omega

end

theorem instant_eq (t : ℕ) : instant (dayOf t) (hourOf t) (minuteOf t) (secondOf t) = t := by
  unfold instant dayOf hourOf minuteOf secondOf
  omega

end N8nCalendar
