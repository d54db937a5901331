import NotifyQueue.Lib.Calendar
import NotifyQueue.Lib.Text
import NotifyQueue.Model.Redis

/-!
# `datetime` by its fields

A `datetime` as Python keeps it, in the years 1 to 9999, and what `ratelimit.py`
does with its fields.  Everywhere else an instant is its number of microseconds
(`Datetime.toTime`); `ofTime?_eq_some` and `map_add?` connect the two, and
`secondsUntilNextWindow_eq` connects the two models of `seconds_until_next_window`.
-/

namespace NotifyQueue

open Calendar

@[ext] structure Datetime extends Date where
  hour : Nat
  minute : Nat
  second : Nat
  microsecond : Nat
  year_le : year ≤ 9999
  hour_lt : hour < 24
  minute_lt : minute < 60
  second_lt : second < 60
  microsecond_lt : microsecond < 1000000
deriving DecidableEq

/-- The number of the day 1970-01-01. -/
def epochOrdinal : Int := 719163

def day : Time := 24 * hour

namespace Datetime

/-- `datetime(year, month, day, hour, minute, second, microsecond)`, or `ValueError`. -/
def ofFields? (year month day hour minute second microsecond : Nat) : Option Datetime :=
  if h : (0 < year ∧ year ≤ 9999) ∧ (0 < month ∧ month ≤ 12) ∧
      (0 < day ∧ day ≤ daysInMonth year month) ∧
      hour < 24 ∧ minute < 60 ∧ second < 60 ∧ microsecond < 1000000 then
    some {
      year := year
      month := month
      day := day
      hour := hour
      minute := minute
      second := second
      microsecond := microsecond
      year_pos := h.1.1
      year_le := h.1.2
      month_pos := h.2.1.1
      month_le := h.2.1.2
      day_pos := h.2.2.1.1
      day_le := h.2.2.1.2
      hour_lt := h.2.2.2.1
      minute_lt := h.2.2.2.2.1
      second_lt := h.2.2.2.2.2.1
      microsecond_lt := h.2.2.2.2.2.2 }
  else none

theorem day_mem {t : Time} (h : minDatetime ≤ t ∧ t ≤ maxDatetime) :
    0 < (t / day + epochOrdinal).toNat ∧ (t / day + epochOrdinal).toNat ≤ 3652059 := by
  simp only [Time, minDatetime, maxDatetime, epochOrdinal, day, NotifyQueue.hour,
    NotifyQueue.second] at h ⊢
  omega

theorem time_lt (t : Time) : (t % day).toNat < 86400000000 := by
  simp only [day, NotifyQueue.hour, NotifyQueue.second]
  omega

/-- The microseconds since midnight. -/
def timeOfDay (d : Datetime) : Nat :=
  ((d.hour * 60 + d.minute) * 60 + d.second) * 1000000 + d.microsecond

/-- The instant of a `datetime` in UTC. -/
def toTime (d : Datetime) : Time := (d.ordinal - epochOrdinal) * day + d.timeOfDay

/-- The `datetime` of an instant, or `OverflowError`. -/
def ofTime? (t : Time) : Option Datetime :=
  if h : minDatetime ≤ t ∧ t ≤ maxDatetime then
    have hday := day_mem h
    let n := (t / day + epochOrdinal).toNat
    let r := (t % day).toNat
    have hr := time_lt t
    some {
      Date.ofOrdinal n hday.1 with
      hour := r / 3600000000
      minute := r / 60000000 % 60
      second := r / 1000000 % 60
      microsecond := r % 1000000
      year_le := (Date.year_le_iff _).mpr (by rw [Date.ordinal_ofOrdinal]; exact hday.2)
      hour_lt := by omega
      minute_lt := Nat.mod_lt _ (by decide)
      second_lt := Nat.mod_lt _ (by decide)
      microsecond_lt := Nat.mod_lt _ (by decide) }
  else none

/-- `datetime + timedelta`. -/
def add? (d : Datetime) (delta : Time) : Option Datetime := ofTime? (d.toTime + delta)

/-! ### Instants -/

theorem timeOfDay_lt (d : Datetime) : (d.timeOfDay : Int) < day := by
  have h1 := d.hour_lt
  have h2 := d.minute_lt
  have h3 := d.second_lt
  have h4 := d.microsecond_lt
  simp only [timeOfDay, day, NotifyQueue.hour, NotifyQueue.second]
  omega

theorem ordinal_le (d : Datetime) : d.ordinal ≤ 3652059 := (Date.year_le_iff _).mp d.year_le

theorem toTime_mem (d : Datetime) : minDatetime ≤ d.toTime ∧ d.toTime ≤ maxDatetime := by
  have hpos := d.ordinal_pos
  have hle := d.ordinal_le
  have hlt := d.timeOfDay_lt
  simp only [Time, toTime, minDatetime, maxDatetime, epochOrdinal, day, NotifyQueue.hour,
    NotifyQueue.second] at hlt ⊢
  omega

theorem toTime_of_ofTime? {t : Time} {d : Datetime} (h : ofTime? t = some d) : d.toTime = t := by
  unfold ofTime? at h
  split at h
  · rename_i ht
    cases h
    have hn := (day_mem ht).1
    have hr := time_lt t
    have hmod : (0 : Int) ≤ t % day := Int.emod_nonneg t (by decide)
    have hsplit : day * (t / day) + t % day = t := Int.mul_ediv_add_emod t day
    simp only [toTime, timeOfDay, Date.ordinal_ofOrdinal]
    simp only [Time, epochOrdinal, day, NotifyQueue.hour, NotifyQueue.second] at *
    omega
  · cases h

theorem ofTime?_isSome {t : Time} :
    (ofTime? t).isSome = true ↔ minDatetime ≤ t ∧ t ≤ maxDatetime := by
  unfold ofTime?
  split <;> simp [*]

theorem toTime_ediv_hour (d : Datetime) :
    d.toTime / NotifyQueue.hour = (d.ordinal - epochOrdinal) * 24 + d.hour := by
  have h2 := d.minute_lt
  have h3 := d.second_lt
  have h4 := d.microsecond_lt
  simp only [Time, toTime, timeOfDay, day, NotifyQueue.hour, NotifyQueue.second]
  omega

theorem same_hour_iff {d e : Datetime} : d.toTime / NotifyQueue.hour = e.toTime / NotifyQueue.hour ↔
    d.toDate = e.toDate ∧ d.hour = e.hour := by
  have hd := d.hour_lt
  have he := e.hour_lt
  rw [toTime_ediv_hour, toTime_ediv_hour]
  constructor
  · intro h
    simp only [Time] at h
    have hord : d.ordinal = e.ordinal := by omega
    exact ⟨Date.ordinal_injective hord, by omega⟩
  · rintro ⟨hdate, hhour⟩
    rw [hdate, hhour]

/-- **A `datetime` is known by its instant.** -/
theorem toTime_injective : Function.Injective toTime := by
  intro d e h
  obtain ⟨hdate, hhour⟩ := same_hour_iff.mp (congrArg (fun t => t / NotifyQueue.hour) h)
  have htime : d.timeOfDay = e.timeOfDay := by
    simpa only [toTime, hdate, Int.add_right_inj, Int.natCast_inj] using h
  have h1 := d.minute_lt
  have h2 := e.minute_lt
  have h3 := d.second_lt
  have h4 := e.second_lt
  have h5 := d.microsecond_lt
  have h6 := e.microsecond_lt
  simp only [timeOfDay] at htime
  refine Datetime.ext (congrArg Date.year hdate) (congrArg Date.month hdate)
    (congrArg Date.day hdate) hhour ?_ ?_ ?_ <;> omega

/-- **`ofTime?` finds the `datetime` of an instant**, if there is one. -/
theorem ofTime?_eq_some {t : Time} {d : Datetime} : ofTime? t = some d ↔ d.toTime = t := by
  constructor
  · exact toTime_of_ofTime?
  · rintro rfl
    obtain ⟨e, he⟩ := Option.isSome_iff_exists.mp (ofTime?_isSome.mpr d.toTime_mem)
    rw [he, toTime_injective (toTime_of_ofTime? he)]

theorem map_ofTime? (t : Time) : (ofTime? t).map toTime = datetime? t := by
  refine Option.ext fun x => ?_
  rw [Option.map_eq_some_iff, datetime?_eq_some]
  constructor
  · rintro ⟨d, hd, rfl⟩
    have ht := toTime_of_ofTime? hd
    exact ⟨ht.symm, ofTime?_isSome.mp (Option.isSome_of_eq_some hd)⟩
  · rintro ⟨rfl, ht⟩
    obtain ⟨d, hd⟩ := Option.isSome_iff_exists.mp (ofTime?_isSome.mpr ht)
    exact ⟨d, hd, toTime_of_ofTime? hd⟩

theorem add?_eq_some {d e : Datetime} {delta : Time} :
    d.add? delta = some e ↔ e.toTime = d.toTime + delta := ofTime?_eq_some

theorem exists_add? {d : Datetime} {delta : Time} (h : minDatetime ≤ d.toTime + delta)
    (h' : d.toTime + delta ≤ maxDatetime) :
    ∃ e, d.add? delta = some e ∧ e.toTime = d.toTime + delta := by
  obtain ⟨e, he⟩ := Option.isSome_iff_exists.mp (ofTime?_isSome.mpr ⟨h, h'⟩)
  exact ⟨e, he, add?_eq_some.mp he⟩

theorem map_add? (d : Datetime) (delta : Time) :
    (d.add? delta).map toTime = datetime? (d.toTime + delta) := map_ofTime? _

/-! ### Windows -/

/-- `now.replace(minute=0, second=0, microsecond=0)`. -/
def topOfHour (now : Datetime) : Datetime :=
  { now with
    minute := 0, second := 0, microsecond := 0
    minute_lt := by decide, second_lt := by decide, microsecond_lt := by decide }

/-- `seconds_until_next_window`; `int` drops the fraction, and `none` is an
`OverflowError`. -/
def secondsUntilNextWindow (now : Datetime) : Option Int :=
  (now.topOfHour.add? NotifyQueue.hour).map (fun nextWindow =>
    (nextWindow.toTime - now.toTime).tdiv NotifyQueue.second + 1)

/-- `next_window` of `defer_job`, or an `OverflowError`. -/
def nextWindow (now : Datetime) (retryAfterSeconds : Int) : Option Datetime :=
  now.add? (retryAfterSeconds * NotifyQueue.second)

theorem toTime_topOfHour (now : Datetime) :
    now.topOfHour.toTime = now.toTime / NotifyQueue.hour * NotifyQueue.hour := by
  rw [toTime_ediv_hour]
  simp only [Time, toTime, timeOfDay, topOfHour, day, NotifyQueue.hour, NotifyQueue.second]
  omega

/-- **The fields and the instant give the same seconds** to the next window. -/
theorem secondsUntilNextWindow_eq (now : Datetime) :
    now.secondsUntilNextWindow = NotifyQueue.secondsUntilNextWindow now.toTime := by
  have hnext : now.topOfHour.toTime + NotifyQueue.hour =
      (now.toTime / NotifyQueue.hour + 1) * NotifyQueue.hour := by
    rw [toTime_topOfHour, Int.add_mul, Int.one_mul]
  have hpos : 0 ≤ (now.toTime / NotifyQueue.hour + 1) * NotifyQueue.hour - now.toTime :=
    Int.sub_nonneg_of_le (Int.le_of_lt (Int.lt_ediv_add_one_mul_self now.toTime (by decide)))
  rw [secondsUntilNextWindow, NotifyQueue.secondsUntilNextWindow, ← hnext, ← map_add?,
    Option.map_map]
  refine Option.map_congr fun next hmem => ?_
  rw [Function.comp_apply, add?_eq_some.mp hmem, hnext, Int.tdiv_eq_ediv_of_nonneg hpos]

example : ((ofFields? 2026 7 8 10 59 59 0).get (by decide)).secondsUntilNextWindow = some 2 := by
  decide

/-- `%Y`.  Whether it is padded to four digits is up to the C library. -/
def yearText (padded : Bool) (year : Nat) : List Char :=
  if padded then Text.fixed 4 year else Nat.toDigits 10 year

/-- `%Y%m%d%H`. -/
def hourText (padded : Bool) (d : Datetime) : List Char :=
  yearText padded d.year ++ Text.fixed 2 d.month ++ Text.fixed 2 d.day ++ Text.fixed 2 d.hour

end Datetime

/-! ### Keys -/

/-- `window_key`: `ratelimit:{recipient}:{now:%Y%m%d%H}`. -/
def windowKeyText (padded : Bool) (recipient : String) (now : Datetime) : String :=
  "ratelimit:" ++ recipient ++ ":" ++ String.ofList (now.hourText padded)

/-- `queue:{priority}`. -/
def queueKey (priority : String) : String := "queue:" ++ priority

/-- `job:lock:{id}`. -/
def lockKey (jobId : String) : String := "job:lock:" ++ jobId

end NotifyQueue
