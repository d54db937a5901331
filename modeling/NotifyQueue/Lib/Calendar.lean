import Mathlib.Data.Nat.Find
import Mathlib.Data.Nat.SuccPred
import Mathlib.Order.SuccPred.IntervalSucc

/-!
# The Gregorian calendar

The proleptic calendar and the numbers of its days: day 1 is the first of January
of the year 1.  The years are stretches of days one after the other, and the months
are such stretches within a year; so a day number is that of exactly one date
(`ordinal_injective`, `ordinal_ofOrdinal`).
-/

namespace Calendar

/-! ### Stretches -/

variable {f : Nat → Nat} {b k l n : Nat}

theorem eq_of_stretch (hf : Monotone f) (hk : f k < n ∧ n ≤ f (k + 1))
    (hl : f l < n ∧ n ≤ f (l + 1)) : k = l := by
  by_contra hkl
  exact Set.disjoint_left.mp (hf.pairwise_disjoint_on_Ioc_succ hkl) hk hl

theorem stretch_findGreatest (hb : 0 < b) (h1 : f 1 < n) (hn : n ≤ f (b + 1)) :
    let m := Nat.findGreatest (fun k => f k < n) b
    0 < m ∧ m ≤ b ∧ f m < n ∧ n ≤ f (m + 1) := by
  intro m
  have hle : m ≤ b := Nat.findGreatest_le b
  refine ⟨Nat.le_findGreatest hb h1, hle, Nat.findGreatest_spec (P := fun k => f k < n) hb h1, ?_⟩
  rcases Nat.lt_or_eq_of_le hle with hlt | heq
  · have hnot := Nat.findGreatest_is_greatest (P := fun k => f k < n) (Nat.lt_succ_self m) hlt
    exact Nat.le_of_not_lt hnot
  · rwa [heq]

/-! ### Years and months -/

def isLeap (year : Nat) : Bool := year % 4 == 0 && (year % 100 != 0 || year % 400 == 0)

def daysInMonth (year : Nat) : Nat → Nat
  | 1 | 3 | 5 | 7 | 8 | 10 | 12 => 31
  | 4 | 6 | 9 | 11 => 30
  | 2 => if isLeap year then 29 else 28
  | _ => 0

def daysInYear (year : Nat) : Nat := if isLeap year then 366 else 365

/-- The days before the first of January. -/
def daysBeforeYear (year : Nat) : Nat :=
  let y := year - 1
  y * 365 + y / 4 - y / 100 + y / 400

/-- The days of the year before the first of the month. -/
def daysBeforeMonth (year : Nat) : Nat → Nat
  | 0 => 0
  | month + 1 => daysBeforeMonth year month + daysInMonth year month

theorem daysBeforeYear_succ {year : Nat} (h : 0 < year) :
    daysBeforeYear (year + 1) = daysBeforeYear year + daysInYear year := by
  obtain ⟨y, rfl⟩ := Nat.exists_eq_add_one.mpr h
  have hle : y / 100 ≤ y / 4 := by omega
  simp only [daysBeforeYear, daysInYear, isLeap, Nat.add_sub_cancel, Nat.succ_div,
    Bool.and_eq_true, Bool.or_eq_true, beq_iff_eq, bne_iff_ne]
  split_ifs <;> omega

theorem daysBeforeYear_mono : Monotone daysBeforeYear := by
  refine monotone_nat_of_le_succ fun year => ?_
  rcases Nat.eq_zero_or_pos year with rfl | h
  · exact Nat.le_refl 0
  · rw [daysBeforeYear_succ h]
    exact Nat.le_add_right _ _

theorem le_daysBeforeYear (year : Nat) : (year - 1) * 365 ≤ daysBeforeYear year := by
  simp only [daysBeforeYear]
  omega

theorem daysBeforeMonth_mono (year : Nat) : Monotone (daysBeforeMonth year) :=
  monotone_nat_of_le_succ fun _ => Nat.le_add_right _ _

theorem daysInMonth_le (year month : Nat) : daysInMonth year month ≤ 31 := by
  unfold daysInMonth
  split
  case h_12 => split <;> decide
  all_goals decide

/-- The twelve months are the year. -/
theorem daysBeforeMonth_thirteen (year : Nat) : daysBeforeMonth year 13 = daysInYear year := by
  simp only [daysBeforeMonth, daysInMonth, daysInYear]
  split <;> rfl

/-! ### Dates -/

@[ext] structure Date where
  year : Nat
  month : Nat
  day : Nat
  year_pos : 0 < year
  month_pos : 0 < month
  month_le : month ≤ 12
  day_pos : 0 < day
  day_le : day ≤ daysInMonth year month
deriving DecidableEq

namespace Date

/-- The number of the day within its year. -/
def dayOfYear (d : Date) : Nat := daysBeforeMonth d.year d.month + d.day

/-- The number of the day. -/
def ordinal (d : Date) : Nat := daysBeforeYear d.year + d.dayOfYear

theorem dayOfYear_mem (d : Date) : daysBeforeMonth d.year d.month < d.dayOfYear ∧
    d.dayOfYear ≤ daysBeforeMonth d.year (d.month + 1) := by
  have hpos := d.day_pos
  have hle := d.day_le
  simp only [dayOfYear, daysBeforeMonth]
  omega

theorem dayOfYear_pos (d : Date) : 0 < d.dayOfYear := Nat.add_pos_right _ d.day_pos

theorem dayOfYear_le (d : Date) : d.dayOfYear ≤ daysInYear d.year := by
  rw [← daysBeforeMonth_thirteen]
  exact d.dayOfYear_mem.2.trans (daysBeforeMonth_mono d.year (Nat.succ_le_succ d.month_le))

theorem ordinal_mem (d : Date) : daysBeforeYear d.year < d.ordinal ∧
    d.ordinal ≤ daysBeforeYear (d.year + 1) := by
  rw [daysBeforeYear_succ d.year_pos]
  exact ⟨Nat.lt_add_of_pos_right d.dayOfYear_pos, Nat.add_le_add_left d.dayOfYear_le _⟩

theorem ordinal_pos (d : Date) : 0 < d.ordinal := Nat.add_pos_right _ d.dayOfYear_pos

/-- **A day number is that of one date only.** -/
theorem ordinal_injective : Function.Injective ordinal := by
  intro d e h
  have hyear : d.year = e.year := by
    refine eq_of_stretch daysBeforeYear_mono d.ordinal_mem ?_
    rw [h]
    exact e.ordinal_mem
  have hk : d.dayOfYear = e.dayOfYear := by
    simpa only [ordinal, hyear, Nat.add_right_inj] using h
  have hmonth : d.month = e.month := by
    refine eq_of_stretch (daysBeforeMonth_mono d.year) d.dayOfYear_mem ?_
    rw [hk, hyear]
    exact e.dayOfYear_mem
  have hday : d.day = e.day := by
    simpa only [dayOfYear, hyear, hmonth, Nat.add_right_inj] using hk
  exact Date.ext hyear hmonth hday

/-- The year of a day: the last one that starts before it. -/
def yearOf (n : Nat) : Nat := Nat.findGreatest (fun y => daysBeforeYear y < n) (n / 365 + 1)

/-- The month of day `k` of a year. -/
def monthOf (year k : Nat) : Nat := Nat.findGreatest (fun m => daysBeforeMonth year m < k) 12

theorem yearOf_spec (hn : 0 < n) : 0 < yearOf n ∧ yearOf n ≤ n / 365 + 1 ∧
    daysBeforeYear (yearOf n) < n ∧ n ≤ daysBeforeYear (yearOf n + 1) := by
  have hle := le_daysBeforeYear (n / 365 + 1 + 1)
  exact stretch_findGreatest (Nat.succ_pos _) hn (by omega)

theorem monthOf_spec {year k : Nat} (hk : 0 < k) (hle : k ≤ daysInYear year) :
    0 < monthOf year k ∧ monthOf year k ≤ 12 ∧ daysBeforeMonth year (monthOf year k) < k ∧
      k ≤ daysBeforeMonth year (monthOf year k + 1) :=
  stretch_findGreatest (by decide) hk (by rwa [daysBeforeMonth_thirteen])

theorem monthOf_yearOf_spec (hn : 0 < n) :
    let k := n - daysBeforeYear (yearOf n)
    0 < monthOf (yearOf n) k ∧ monthOf (yearOf n) k ≤ 12 ∧
      daysBeforeMonth (yearOf n) (monthOf (yearOf n) k) < k ∧
      k ≤ daysBeforeMonth (yearOf n) (monthOf (yearOf n) k + 1) := by
  have hyear := yearOf_spec hn
  have hsucc := daysBeforeYear_succ hyear.1
  exact monthOf_spec (by omega) (by omega)

/-- The date of a day number. -/
def ofOrdinal (n : Nat) (hn : 0 < n) : Date :=
  let year := yearOf n
  let k := n - daysBeforeYear year
  let month := monthOf year k
  have hmonth := monthOf_yearOf_spec hn
  { year := year
    month := month
    day := k - daysBeforeMonth year month
    year_pos := (yearOf_spec hn).1
    month_pos := hmonth.1
    month_le := hmonth.2.1
    day_pos := Nat.sub_pos_of_lt hmonth.2.2.1
    day_le := Nat.sub_le_iff_le_add'.mpr hmonth.2.2.2 }

/-- **Every day number is that of a date.** -/
theorem ordinal_ofOrdinal (hn : 0 < n) : (ofOrdinal n hn).ordinal = n := by
  have hyear := yearOf_spec hn
  have hpos := (ofOrdinal n hn).day_pos
  simp only [ordinal, dayOfYear, ofOrdinal] at hpos ⊢
  omega

/-- The years up to `y` end with the day number `daysBeforeYear (y + 1)`. -/
theorem year_le_iff (d : Date) {y : Nat} : d.year ≤ y ↔ d.ordinal ≤ daysBeforeYear (y + 1) := by
  constructor
  · intro h
    exact d.ordinal_mem.2.trans (daysBeforeYear_mono (Nat.succ_le_succ h))
  · intro h
    by_contra hlt
    have hmono := daysBeforeYear_mono (Nat.succ_le_of_lt (Nat.lt_of_not_le hlt))
    exact absurd (d.ordinal_mem.1.trans_le h) (Nat.not_lt_of_le hmono)

end Date

end Calendar
