import NotifyQueue.Model.Posting

/-!
# Which delivery times can be stored

The driver converts `send_at` to UTC to encode it, and the result has to be in the
years 1 to 9999.  A delay is bounded by validation, so a relative time is there
unless the year 9999 is nearly over.  A posted time is not bounded: its wall clock is
in those years, but its offset may take the instant out of them at either end
(`storable_iff`).
-/

namespace NotifyQueue

/-- `resolved_send_at` returns a time, and `INSERT_JOB` can encode it. -/
def Storable (body : ValidBody) (now : Datetime) : Prop :=
  ∃ t utc, body.resolvedSendAt now = some t ∧ t.toUtc = some utc

/-- The wall clock is further from the beginning of the year 1 than an offset to the
east, and further from the end of the year 9999 than an offset to the west. -/
structure PostedTime.Fits (t : PostedTime) : Prop where
  east : ∀ o, t.offset = some o → 0 < o.val → minDatetime + o.val ≤ t.wall.toTime
  west : ∀ o, t.offset = some o → o.val < 0 → t.wall.toTime ≤ maxDatetime + o.val

/-- At least 367 days of the year 9999 and the years before it are left. -/
def EarlyEnough (now : Datetime) : Prop := now.toTime + 367 * day ≤ maxDatetime + 1

variable {body : PostBody} {v : ValidBody} {now : Datetime}

theorem AwareDatetime.toUtc_isSome_iff (t : AwareDatetime) : t.toUtc.isSome = true ↔
    (0 < t.offset.val → minDatetime + t.offset.val ≤ t.wall.toTime) ∧
    (t.offset.val < 0 → t.wall.toTime ≤ maxDatetime + t.offset.val) := by
  obtain ⟨hmin, hmax⟩ := t.wall.toTime_mem
  rw [AwareDatetime.toUtc_isSome, AwareDatetime.instant]
  simp only [Time] at *
  omega

/-- A posted time can be encoded exactly when its offset does not take it out. -/
theorem assumeUtc_toUtc_isSome (t : PostedTime) :
    t.assumeUtc.toUtc.isSome = true ↔ t.Fits := by
  rw [AwareDatetime.toUtc_isSome_iff, PostedTime.assumeUtc]
  cases ho : t.offset with
  | none =>
    refine iff_of_true ⟨?_, ?_⟩ ⟨?_, ?_⟩
    · intro h
      exact absurd h (Int.lt_irrefl 0)
    · intro h
      exact absurd h (Int.lt_irrefl 0)
    · intro o h
      cases ho.symm.trans h
    · intro o h
      cases ho.symm.trans h
  | some o =>
    constructor
    · rintro ⟨heast, hwest⟩
      refine ⟨?_, ?_⟩
      · intro x hx
        cases ho.symm.trans hx
        exact heast
      · intro x hx
        cases ho.symm.trans hx
        exact hwest
    · rintro ⟨heast, hwest⟩
      exact ⟨heast o ho, hwest o ho⟩

theorem delay_le (v : ValidBody) {d : Int} (h : v.delaySeconds = some d) :
    0 ≤ d ∧ d ≤ 366 * 24 * 3600 := by
  have hv := v.valid
  simp only [JobBody.valid, h, Option.all_some, Bool.and_eq_true, decide_eq_true_eq] at hv
  exact hv.1.1.2

/-- Without a posted time, the time is one that Python has computed in UTC. -/
theorem storable_of_relative (ha : v.aware = none) (hnow : EarlyEnough now) : Storable v now := by
  cases hd : v.delaySeconds with
  | none =>
    refine ⟨.utc now, now, ?_, AwareDatetime.toUtc_utc now⟩
    rw [ValidBody.resolvedSendAt, ha, hd]
  | some d =>
    obtain ⟨hpos, hle⟩ := delay_le v hd
    obtain ⟨e, he, -⟩ : ∃ e, now.add? (d * second) = some e ∧ e.toTime = _ := by
      have hmin := now.toTime_mem.1
      refine Datetime.exists_add? ?_ ?_
      all_goals
        simp only [Time, EarlyEnough, day, hour, second] at *
        omega
    refine ⟨.utc e, e, ?_, AwareDatetime.toUtc_utc e⟩
    simp only [ValidBody.resolvedSendAt, ha, hd, he, Option.map_some]

theorem storable_of_posted {t : PostedTime} (ha : v.aware = some t.assumeUtc) :
    Storable v now ↔ t.Fits := by
  have hr : v.resolvedSendAt now = some t.assumeUtc := by rw [ValidBody.resolvedSendAt, ha]
  rw [← assumeUtc_toUtc_isSome, Option.isSome_iff_exists]
  constructor
  · rintro ⟨x, utc, hx, hutc⟩
    rw [hr, Option.some.injEq] at hx
    exact ⟨utc, hx ▸ hutc⟩
  · rintro ⟨utc, hutc⟩
    exact ⟨_, utc, hr, hutc⟩

/-- **An accepted time can be stored exactly when** the offset of a posted one does
not take it past the ends of the calendar. -/
theorem storable_iff (hv : body.validate = some v) (hnow : EarlyEnough now) :
    Storable v now ↔ ∀ t, body.posted = some t → t.Fits := by
  have ha := (validate_eq_some hv).2
  cases hp : body.posted with
  | none =>
    rw [hp] at ha
    exact iff_of_true (storable_of_relative ha hnow) (fun t ht => by cases ht)
  | some t =>
    rw [hp] at ha
    rw [storable_of_posted ha]
    simp only [Option.some.injEq, forall_eq']

/-- A body that names a time. -/
def postAt (t : PostedTime) : PostBody where
  recipient := "a"
  channel := .email
  payload := "x"
  posted := some t
  sendAt := some t.assumeUtc.instant
  sendAt_eq := rfl

theorem validate_postAt (t : PostedTime) : ∃ v, (postAt t).validate = some v := ⟨_, dif_pos rfl⟩

/-- `0001-01-01T01:00:00+01:00`, the first instant there is. -/
def beginning : PostedTime where
  wall := (Datetime.ofFields? 1 1 1 1 0 0 0).get (by decide)
  offset := some ⟨hour, by decide⟩

def newYear2026 : Datetime := (Datetime.ofFields? 2026 1 1 0 0 0 0).get (by decide)

theorem storable_beginning :
    ∃ v, (postAt beginning).validate = some v ∧ Storable v newYear2026 := by
  obtain ⟨v, hv⟩ := validate_postAt beginning
  refine ⟨v, hv, (storable_iff hv (show _ ≤ _ by decide)).mpr ?_⟩
  rintro t ⟨⟩
  refine ⟨?_, ?_⟩
  · rintro o ⟨⟩ _
    decide
  · rintro o ⟨⟩ h
    exact absurd h (by decide)

/-- Every accepted time can be stored. -/
def AlwaysStorable : Prop := ∀ (body : PostBody) (v : ValidBody) (now : Datetime),
  body.validate = some v → EarlyEnough now → Storable v now

/-- `9999-12-31T23:59:59-01:00`. -/
def lateIn9999 : PostedTime where
  wall := (Datetime.ofFields? 9999 12 31 23 59 59 0).get (by decide)
  offset := some ⟨-hour, by decide⟩

/-- The conversion of `lateIn9999` to UTC overflows. -/
theorem not_always_storable : ¬ AlwaysStorable := by
  intro hall
  obtain ⟨v, hv⟩ := validate_postAt lateIn9999
  have ha := (validate_eq_some hv).2
  obtain ⟨t, utc, ht, hutc⟩ := hall _ v newYear2026 hv (show _ ≤ _ by decide)
  rw [ValidBody.resolvedSendAt, ha] at ht
  cases ht
  exact absurd (AwareDatetime.toUtc_isSome.mp (Option.isSome_of_eq_some hutc)).2 (by decide)

end NotifyQueue
