import Mathlib.Tactic.Linarith
import NotifyQueue.Model.Submission

/-!
# Priorities in the score

A rank of priority weighs `10 ** 10` seconds in the score, about 317 years, and a
`send_at` may be anything from the year 1 on.  So in exact arithmetic a job of
higher priority is below one of lower priority exactly when it is not due that much
later (`score_ordered`); among the jobs due in some span of time that is so for all
exactly when the span is no longer (`ordered_between`).
-/

namespace NotifyQueue

def Job.score (r : Job) : ℚ := exactScore r.priority r.sendAt

/-- The score of two jobs follows their priorities, and at equal priority their
`send_at`. -/
structure ScoreOrdered (r r' : Job) : Prop where
  higher : r.priority.rank < r'.priority.rank → r.score < r'.score
  lower : r'.priority.rank < r.priority.rank → r'.score < r.score
  same : r.priority = r'.priority →
    (r.score < r'.score ↔ r.sendAt < r'.sendAt) ∧ (r'.score < r.score ↔ r'.sendAt < r.sendAt)

/-- The weight of one rank. -/
def rankWeight : Time := 10 ^ 10 * second

/-- If `r` has the higher priority, it is not due later than `r'` by the weight of
the ranks between them. -/
def WithinWeight (r r' : Job) : Prop := r.priority.rank < r'.priority.rank →
  r.sendAt - r'.sendAt < (r'.priority.rank - r.priority.rank) * rankWeight

variable {cfg : Settings} {r r' : Job}

/-- The score of a job in microseconds. -/
def Job.microScore (r : Job) : Int := r.priority.rank * rankWeight + r.sendAt

theorem score_eq (r : Job) : r.score = r.microScore / second := by
  rw [Job.score, exactScore, Job.microScore, Int.cast_add, add_div]
  congr 1
  cases r.priority <;> norm_num [priorityWeight, Priority.rank, rankWeight, second]

theorem score_lt : r.score < r'.score ↔ r.microScore < r'.microScore := by
  have hpos : (0 : ℚ) < second := by norm_num [second]
  rw [score_eq, score_eq, div_lt_div_iff_of_pos_right hpos, Int.cast_lt]

/-- **Higher priority means a lower score exactly when** the weight is not outrun. -/
theorem score_lt_iff : (r.priority.rank < r'.priority.rank → r.score < r'.score) ↔
    WithinWeight r r' := by
  refine imp_congr_right fun _ => ?_
  rw [score_lt, Job.microScore, Job.microScore, sub_mul]
  constructor <;> intro h <;> linarith

/-- **The scores of two jobs are ordered exactly when** neither outruns its weight. -/
theorem score_ordered (r r' : Job) :
    ScoreOrdered r r' ↔ WithinWeight r r' ∧ WithinWeight r' r := by
  constructor
  · intro h
    exact ⟨score_lt_iff.mp h.higher, score_lt_iff.mp h.lower⟩
  · rintro ⟨h, h'⟩
    refine ⟨score_lt_iff.mpr h, score_lt_iff.mpr h', fun hp => ?_⟩
    rw [score_lt, score_lt, Job.microScore, Job.microScore, hp]
    exact ⟨add_lt_add_iff_left _, add_lt_add_iff_left _⟩

/-- Any two jobs due between `x` and `y` are ordered. -/
def OrderedBetween (x y : Time) : Prop :=
  ∀ r r' : Job, x ≤ r.sendAt → r.sendAt ≤ y → x ≤ r'.sendAt → r'.sendAt ≤ y → ScoreOrdered r r'

/-- **All jobs of a span of time are ordered exactly when** it is shorter than the
weight of one rank. -/
theorem ordered_between {x y : Time} (hxy : x ≤ y) : OrderedBetween x y ↔ y - x < rankWeight := by
  have hpos : 0 < rankWeight := by decide
  constructor
  · intro h
    have hjobs := h (insertJob {} 0 0 { plainJob with priority := .high, sendAt := y })
      (insertJob {} 0 0 { plainJob with priority := .medium, sendAt := x }) hxy le_rfl le_rfl hxy
    have hlt := ((score_ordered _ _).mp hjobs).1 (show (0 : Nat) < 1 by decide)
    simpa [insertJob, Priority.rank] using hlt
  · intro hlt
    have hall : ∀ r r' : Job, r.sendAt ≤ y → x ≤ r'.sendAt → WithinWeight r r' := by
      intro r r' hy hx hrank
      have hone : (1 : Int) ≤ r'.priority.rank - r.priority.rank := by omega
      have := mul_le_mul_of_nonneg_right hone hpos.le
      linarith
    exact fun r r' hx hy hx' hy' => (score_ordered r r').mpr ⟨hall r r' hy hx', hall r' r hy' hx⟩

/-- Any two jobs that `POST /jobs` accepts and that are due at `now` are ordered. -/
def AlwaysOrdered (cfg : Settings) (now : Time) : Prop :=
  ∀ (id id' : JobId) (body body' : JobBody) (at₁ at₂ t t' : Time), body.valid = true →
    body'.valid = true → body.resolvedSendAt at₁ = some t → body'.resolvedSendAt at₂ = some t' →
    due cfg now [] (insertJob cfg at₁ id (body.columns t)) = true →
    due cfg now [] (insertJob cfg at₂ id' (body'.columns t')) = true →
    ScoreOrdered (insertJob cfg at₁ id (body.columns t)) (insertJob cfg at₂ id' (body'.columns t'))

/-- At the beginning of 2026, a job of high priority for that instant and one of
medium priority for the beginning of 1600. -/
theorem not_always_ordered : ¬ AlwaysOrdered {} (1767225600 * second) := by
  intro hall
  let body : JobBody := { recipient := "a", channel := .email, payload := "x" }
  have h := hall 7 8 { body with sendAt := some (1767225600 * second), priority := .high }
    { body with sendAt := some (-11676096000 * second) } (1767225600 * second)
    (1767225600 * second) _ _ (by decide) (by decide) rfl rfl (by decide) (by decide)
  exact absurd (score_lt.mp (h.higher (by decide))) (by decide)

end NotifyQueue
