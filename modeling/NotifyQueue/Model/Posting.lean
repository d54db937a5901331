import NotifyQueue.Model.Datetime
import NotifyQueue.Model.Submission

/-!
# `send_at` from the body to the column

A posted `send_at` has the fields of a wall clock and an offset from UTC, or none.
Validation makes it aware, `resolved_send_at` picks it or a time relative to now,
and the driver converts it to UTC to encode the column.  Where `JobBody` has an
instant the bodies here have the `datetime` it comes from; `receive_eq` says that
the request goes on with that instant.
-/

namespace NotifyQueue

/-- An offset from UTC, of less than a day. -/
def Offset := { o : Time // -day < o ∧ o < day }

def Offset.utc : Offset := ⟨0, by decide⟩

/-- A `datetime` that may be naive. -/
structure PostedTime where
  wall : Datetime
  offset : Option Offset

/-- A `datetime` with an offset. -/
structure AwareDatetime where
  wall : Datetime
  offset : Offset

/-- `_assume_utc`. -/
def PostedTime.assumeUtc (t : PostedTime) : AwareDatetime := ⟨t.wall, t.offset.getD .utc⟩

namespace AwareDatetime

def utc (d : Datetime) : AwareDatetime := ⟨d, .utc⟩

def instant (t : AwareDatetime) : Time := t.wall.toTime - t.offset.val

/-- `astimezone(UTC)`, or an `OverflowError`. -/
def toUtc (t : AwareDatetime) : Option Datetime := t.wall.add? (-t.offset.val)

@[simp] theorem instant_utc (d : Datetime) : (utc d).instant = d.toTime := Int.sub_zero _

theorem toUtc_eq_some {t : AwareDatetime} {d : Datetime} :
    t.toUtc = some d ↔ d.toTime = t.instant := by
  rw [toUtc, Datetime.add?_eq_some, instant, Int.sub_eq_add_neg]

@[simp] theorem toUtc_utc (d : Datetime) : (utc d).toUtc = some d :=
  toUtc_eq_some.mpr (instant_utc d).symm

theorem toUtc_isSome {t : AwareDatetime} :
    t.toUtc.isSome = true ↔ minDatetime ≤ t.instant ∧ t.instant ≤ maxDatetime := by
  rw [toUtc, Datetime.add?, Datetime.ofTime?_isSome, instant, Int.sub_eq_add_neg]

end AwareDatetime

/-- `JobCreate` before validation. -/
structure PostBody extends JobBody where
  posted : Option PostedTime
  sendAt_eq : sendAt = posted.map (fun t => t.assumeUtc.instant)

/-- `JobCreate` after validation. -/
structure ValidBody extends JobBody where
  aware : Option AwareDatetime
  sendAt_eq : sendAt = aware.map AwareDatetime.instant
  valid : toJobBody.valid = true

/-- The validators of `JobCreate`; `none` is a `ValidationError`. -/
def PostBody.validate (body : PostBody) : Option ValidBody :=
  if h : body.toJobBody.valid = true then
    some {
      toJobBody := body.toJobBody
      aware := body.posted.map PostedTime.assumeUtc
      sendAt_eq := by rw [body.sendAt_eq, Option.map_map]; rfl
      valid := h }
  else none

namespace ValidBody

/-- `resolved_send_at`; `none` is an `OverflowError`. -/
def resolvedSendAt (body : ValidBody) (now : Datetime) : Option AwareDatetime :=
  match body.aware, body.delaySeconds with
  | some t, _ => some t
  | none, some d => (now.add? (d * second)).map .utc
  | none, none => some (.utc now)

/-- **The instant of `resolved_send_at`** is the one of the body with an instant. -/
theorem instant_resolvedSendAt (body : ValidBody) (now : Datetime) :
    (body.resolvedSendAt now).map AwareDatetime.instant =
      body.toJobBody.resolvedSendAt now.toTime := by
  rw [resolvedSendAt, JobBody.resolvedSendAt, body.sendAt_eq]
  cases body.aware with
  | some t => rfl
  | none =>
    cases body.delaySeconds with
    | some d =>
      simp only [Option.map_none, Option.map_map, ← Datetime.map_add?]
      exact Option.map_congr fun e _ => AwareDatetime.instant_utc e
    | none => exact congrArg some (AwareDatetime.instant_utc now)

end ValidBody

theorem validate_eq_some {body : PostBody} {v : ValidBody} (h : body.validate = some v) :
    v.toJobBody = body.toJobBody ∧ v.aware = body.posted.map PostedTime.assumeUtc := by
  unfold PostBody.validate at h
  split at h <;> cases h
  exact ⟨rfl, rfl⟩

/-- **A request that arrives** is rejected at validation, fails in `resolved_send_at`,
or goes on with the instant of its `send_at`. -/
theorem receive_eq (body : PostBody) (now : Datetime) :
    receive body.toJobBody now.toTime =
      match body.validate with
      | none => .rejected
      | some v =>
        match v.resolvedSendAt now with
        | none => .failed
        | some t => .inserting t.instant := by
  by_cases h : body.toJobBody.valid = true
  · obtain ⟨v, hv⟩ : ∃ v, body.validate = some v := ⟨_, dif_pos h⟩
    rw [receive, if_pos h, hv, ← (validate_eq_some hv).1, ← v.instant_resolvedSendAt]
    cases ht : v.resolvedSendAt now with
    | none => simp only [ht, Option.map_none]
    | some t => simp only [ht, Option.map_some]
  · rw [receive, if_neg h, show body.validate = none from dif_neg h]

end NotifyQueue
