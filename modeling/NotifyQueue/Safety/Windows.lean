import NotifyQueue.Model.Datetime
import NotifyQueue.Safety.Deferral

/-!
# Hours as texts and as windows

`window_key` prints the hour after the recipient and a colon, and prints it in
digits only.  So the last colon of a key is where the hour begins, whatever the
recipient contains, and the digits give the hour back (`windowKeyText_eq_iff`): the
text of a key stands for the key of the Redis model.

The window of a deferral begins with the opening that `seconds_until_next_window`
measures to.  What is added is more than the time to the opening by a second at
most, so the second reading of the clock may be later than the first by all but one
second of an hour (`deferral_lands_in_next_window`).
-/

namespace NotifyQueue

variable {padded : Bool} {r r' : String} {d e : Datetime}

/-! ### Texts -/

theorem isDigit_of_mem_yearText {c : Char} {year : Nat}
    (h : c ∈ Datetime.yearText padded year) : c.isDigit = true := by
  cases padded with
  | true => exact Text.isDigit_of_mem_fixed h
  | false => exact Nat.isDigit_of_mem_toDigits (by decide) (by decide) h

theorem yearText_inj {year year' : Nat} (hy : year ≤ 9999) (hy' : year' ≤ 9999)
    (h : Datetime.yearText padded year = Datetime.yearText padded year') : year = year' := by
  cases padded with
  | true => exact Text.fixed_inj (by omega) (by omega) h
  | false => exact Text.toDigits_inj h

theorem colon_notMem_hourText : ':' ∉ d.hourText padded := by
  intro h
  have hdigit : Char.isDigit ':' = true := by
    simp only [Datetime.hourText, List.mem_append] at h
    rcases h with ((h | h) | h) | h
    · exact isDigit_of_mem_yearText h
    · exact Text.isDigit_of_mem_fixed h
    · exact Text.isDigit_of_mem_fixed h
    · exact Text.isDigit_of_mem_fixed h
  exact absurd hdigit (by decide)

theorem fields_of_hourText (h : d.hourText padded = e.hourText padded) :
    d.toDate = e.toDate ∧ d.hour = e.hour := by
  have hd := d.hour_lt
  have he := e.hour_lt
  have hdm := d.month_le
  have hem := e.month_le
  have hdd := d.day_le.trans (Calendar.daysInMonth_le d.year d.month)
  have hed := e.day_le.trans (Calendar.daysInMonth_le e.year e.month)
  obtain ⟨h, hhour⟩ := List.append_inj' h (by simp only [Text.length_fixed])
  obtain ⟨h, hday⟩ := List.append_inj' h (by simp only [Text.length_fixed])
  obtain ⟨hyear, hmonth⟩ := List.append_inj' h (by simp only [Text.length_fixed])
  refine ⟨Calendar.Date.ext ?_ ?_ ?_, ?_⟩
  · exact yearText_inj d.year_le e.year_le hyear
  · exact Text.fixed_inj (by omega) (by omega) hmonth
  · exact Text.fixed_inj (by omega) (by omega) hday
  · exact Text.fixed_inj (by omega) (by omega) hhour

/-- **The printed hour is that of one window.** -/
theorem hourText_eq_iff :
    d.hourText padded = e.hourText padded ↔ d.toTime / hour = e.toTime / hour := by
  rw [Datetime.same_hour_iff]
  constructor
  · exact fields_of_hourText
  · rintro ⟨hdate, hhour⟩
    rw [Datetime.hourText, Datetime.hourText, hdate, hhour]

/-! ### Keys -/

/-- **The text of a key is that of one key of the model.** -/
theorem windowKeyText_eq_iff : windowKeyText padded r d = windowKeyText padded r' e ↔
    windowKey r d.toTime = windowKey r' e.toTime := by
  rw [windowKey, windowKey, WindowKey.mk.injEq, ← @hourText_eq_iff padded d e]
  constructor
  · intro h
    have htext : r.toList ++ ':' :: d.hourText padded = r'.toList ++ ':' :: e.hourText padded := by
      simpa [windowKeyText, ← String.toList_inj] using h
    obtain ⟨hr, hhour⟩ :=
      Text.append_cons_inj_right colon_notMem_hourText colon_notMem_hourText htext
    exact ⟨String.toList_inj.mp hr, hhour⟩
  · rintro ⟨rfl, h⟩
    rw [windowKeyText, windowKeyText, h]

example : windowKeyText false "a:1" ((Datetime.ofFields? 2026 7 8 9 59 59 0).get (by decide)) =
    "ratelimit:a:1:2026070809" := by decide

theorem windowKeyText_ne_queueKey (x : String) : windowKeyText padded r d ≠ queueKey x := by
  intro h
  simpa [windowKeyText, queueKey] using congrArg (fun key => key.toList.head?) h

theorem windowKeyText_ne_lockKey (x : String) : windowKeyText padded r d ≠ lockKey x := by
  intro h
  simpa [windowKeyText, lockKey] using congrArg (fun key => key.toList.head?) h

/-- **Rate-limit keys never collide**: two keys are equal exactly for the same
recipient in the same hour, and none is the key of a queue or of a lock. -/
theorem window_keys_never_collide (padded : Bool) (r r' : String) (d e : Datetime) :
    (windowKeyText padded r d = windowKeyText padded r' e ↔
      r = r' ∧ d.toTime / hour = e.toTime / hour) ∧
    ∀ x, windowKeyText padded r d ≠ queueKey x ∧ windowKeyText padded r d ≠ lockKey x := by
  constructor
  · rw [windowKeyText_eq_iff, windowKey, windowKey, WindowKey.mk.injEq]
  · intro x
    exact ⟨windowKeyText_ne_queueKey x, windowKeyText_ne_lockKey x⟩

/-! ### Deferrals -/

/-- The two readings of the clock and the whole seconds, rounded up, from the first
one to the opening. -/
theorem due_between {clock checkedAt unit : Int} (opening : Int) (hunit : 0 < unit)
    (h : checkedAt ≤ clock) :
    opening < clock + ((opening - checkedAt) / unit + 1) * unit ∧
      clock + ((opening - checkedAt) / unit + 1) * unit ≤
        opening + unit + (clock - checkedAt) := by
  have hlt := Int.lt_ediv_add_one_mul_self (opening - checkedAt) hunit
  have hle := Int.ediv_mul_le (opening - checkedAt) hunit.ne'
  rw [Int.add_mul, Int.one_mul] at hlt ⊢
  omega

theorem nextOpening_mem {now : Time} (h : now + hour ≤ maxDatetime) (hmin : minDatetime ≤ now) :
    minDatetime ≤ nextOpening now ∧ nextOpening now + hour ≤ maxDatetime + 1 := by
  simp only [Time, nextOpening, minDatetime, maxDatetime, hour, second] at *
  omega

theorem hour_of_window {now t : Time} (h : nextOpening now ≤ t) (h' : t < nextOpening now + hour) :
    t / hour = now / hour + 1 := by
  simp only [Time, nextOpening, hour, second] at *
  omega

/-- `later` is in the hour after the one of `now`, and its keys are those of that hour. -/
structure InNextWindow (padded : Bool) (now later : Datetime) : Prop where
  opened : nextOpening now.toTime < later.toTime
  closes : later.toTime < nextOpening now.toTime + hour
  key : ∀ r e, windowKeyText padded r later = windowKeyText padded r e ↔
    e.toTime / hour = now.toTime / hour + 1

theorem inNextWindow {now later : Datetime} (h : nextOpening now.toTime < later.toTime)
    (h' : later.toTime < nextOpening now.toTime + hour) : InNextWindow padded now later where
  opened := h
  closes := h'
  key r e := by
    rw [windowKeyText_eq_iff, windowKey, windowKey, WindowKey.mk.injEq, hour_of_window h.le h']
    simp only [true_and, eq_comm]

/-- **Deferral lands in the next window.** -/
theorem deferral_lands_in_next_window (padded : Bool) {now₁ now₂ : Datetime}
    (h₁ : now₁.toTime + hour ≤ maxDatetime) (h : now₁.toTime ≤ now₂.toTime) :
    ∃ n, now₁.secondsUntilNextWindow = some n ∧
      nextOpening now₁.toTime < now₂.toTime + n * second ∧
      (now₂.toTime - now₁.toTime < 3599 * second →
        ∃ later, now₂.nextWindow n = some later ∧ InNextWindow padded now₁ later) := by
  obtain ⟨hmin, hmax⟩ := nextOpening_mem h₁ now₁.toTime_mem.1
  obtain ⟨hlt, hle⟩ := due_between (nextOpening now₁.toTime) (show 0 < second by decide) h
  have hnext : datetime? (nextOpening now₁.toTime) = some (nextOpening now₁.toTime) := by
    refine datetime?_eq_some.mpr ⟨rfl, hmin, ?_⟩
    exact Int.le_of_add_le_add_right (hmax.trans (Int.add_le_add_left (by decide) maxDatetime))
  refine ⟨(nextOpening now₁.toTime - now₁.toTime) / second + 1, ?_, hlt, fun hsoon => ?_⟩
  · rw [now₁.secondsUntilNextWindow_eq]
    exact congrArg (Option.map _) hnext
  · have hdue : now₂.toTime + ((nextOpening now₁.toTime - now₁.toTime) / second + 1) * second <
        nextOpening now₁.toTime + hour := by
      simp only [Time, hour] at *
      omega
    obtain ⟨later, hlater, heq⟩ := Datetime.exists_add? (hmin.trans hlt.le)
      (Int.le_of_lt_add_one (hdue.trans_le hmax))
    rw [← heq] at hlt hdue
    exact ⟨later, hlater, inNextWindow hlt hdue⟩

/-- The last microsecond of 2025. -/
def endOf2025 : Datetime := (Datetime.ofFields? 2025 12 31 23 59 59 999999).get (by decide)

/-- Half an hour into 2026. -/
def earlyIn2026 : Datetime := (Datetime.ofFields? 2026 1 1 0 30 0 0).get (by decide)

theorem deferral_into_the_next_year : ∃ n, endOf2025.secondsUntilNextWindow = some n ∧
    nextOpening endOf2025.toTime < earlyIn2026.toTime + n * second ∧
    ∃ later, earlyIn2026.nextWindow n = some later ∧ InNextWindow true endOf2025 later := by
  obtain ⟨n, hn, hlt, hin⟩ := deferral_lands_in_next_window true
    (show endOf2025.toTime + hour ≤ maxDatetime by decide)
    (show endOf2025.toTime ≤ earlyIn2026.toTime by decide)
  exact ⟨n, hn, hlt, hin (by decide)⟩

theorem deferJob_eq {w : WorkerId} {env : Env} {sh : Shared} {job : Job} {now : Datetime}
    (hclock : env.clock = now.toTime) (n : Int) :
    deferJob w env sh job n = (now.nextWindow n).map (fun nextWindow =>
      settle w sh job.id (deferToNextWindow sh.db.now nextWindow.toTime job.id job.workerId)
        (.deferred w job.id) none) := by
  rw [deferJob, hclock, ← Datetime.map_add?, Option.map_map]
  rfl

/-- **A deferral of the system** writes a `send_at` in the hour after the one of the check. -/
theorem deferred_due_in_next_window {cfg : Settings} {s t : State} {es : List Event}
    {w : WorkerId} {env : Env} {job : Job} {checkedAt : Time}
    (h : step cfg s (work w env) = some (t, es))
    (hpc : (s.workers w).pc = .deferring job checkedAt) (he : .deferred w job.id ∈ es)
    (hle : checkedAt ≤ env.clock) (hsoon : env.clock - checkedAt < 3599 * second) :
    ∃ r, t.row job.id = some r ∧ r.status = .pending ∧
      r.sendAt / hour = checkedAt / hour + 1 := by
  obtain ⟨-, r, hr, hst, hdue, -⟩ := defer_due h hpc he
  obtain ⟨hlt, hle⟩ := due_between (nextOpening checkedAt) (show 0 < second by decide) hle
  rw [← hdue] at hlt hle
  refine ⟨r, hr, hst, hour_of_window hlt.le ?_⟩
  simp only [Time, hour] at *
  omega

end NotifyQueue
