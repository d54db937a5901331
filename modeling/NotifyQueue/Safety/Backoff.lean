import Mathlib.Tactic.Linarith
import NotifyQueue.Safety.Outcomes

/-!
# How far the backoff reaches

The delay doubles with every attempt and nothing bounds it, while the last
`datetime` is in the year 9999.  `handle_failure` schedules the retry exactly when
the clock plus the delay is not past that (`records_retry`); otherwise it raises,
and the job stays claimed.
-/

namespace NotifyQueue

open KeyedTable

/-- The longest `timedelta`, in whole seconds: one second less than `10 ** 9` days. -/
def maxTimedeltaSeconds : Int := 10 ^ 9 * 24 * 3600 - 1

/-- The job of a snapshot is still claimed by the worker the snapshot names. -/
def StillOwned (sh : Shared) (w : WorkerId) (job : Job) : Prop :=
  job.workerId = some w ∧ ∃ r, sh.db.row job.id = some r ∧ r.status = .claimed ∧ r.workerId = some w

/-- `handle_failure` computes the retry time and records the failure. -/
structure RecordsRetry (cfg : Settings) (w : WorkerId) (env : Env) (sh : Shared) (job : Job)
    (error : String) : Prop where
  timedelta : cfg.baseRetryDelaySeconds * 2 ^ job.attemptCount ≤ maxTimedeltaSeconds
  recorded : ∃ sh' notice r, handleFailure cfg w env sh job error =
      some (sh', .releasing job.id notice, [.retried w job.id]) ∧
    sh'.db.row job.id = some r ∧ r.status = .pending ∧ r.workerId = none ∧
    r.attemptCount = job.attemptCount + 1 ∧ r.errorMessage = some error ∧
    r.nextRetryAt =
      some (env.clock + cfg.baseRetryDelaySeconds * 2 ^ job.attemptCount * second)

variable {cfg : Settings} {w : WorkerId} {env : Env} {sh : Shared} {job : Job} {error : String}

/-- Below the cap `handle_failure` computes the retry time, and the rest succeeds. -/
theorem handleFailure_eq (cfg : Settings) (env : Env) (error : String)
    (hown : StillOwned sh w job) (hleft : job.attemptCount + 1 < job.maxAttempts) :
    ∃ f : Time → Shared, handleFailure cfg w env sh job error =
      (datetime? (env.clock + cfg.baseRetryDelaySeconds * 2 ^ job.attemptCount * second)).map
        (fun t => (f t, .releasing job.id (some ⟨job.id, job.callbackUrl, .failed⟩),
          [.retried w job.id])) ∧
      ∀ t, ∃ r, (f t).db.row job.id = some r ∧ r.status = .pending ∧ r.workerId = none ∧
        r.attemptCount = job.attemptCount + 1 ∧ r.errorMessage = some error ∧
        r.nextRetryAt = some t := by
  obtain ⟨hw, r, hr, hst, hrw⟩ := hown
  let u : Time → Update Job := fun t =>
    scheduleRetry sh.db.now (job.attemptCount + 1) t error job.id job.workerId
  have happlies : ∀ t, (u t).applies r = true := by
    intro t
    refine fenced_iff.mpr ⟨Table.key_of_find? hr, ⟨?_, ?_⟩, hst⟩
    · rw [hrw, hw]
    · rw [hrw]
      exact Option.some_ne_none w
  have hfetch : ∀ t, sh.db.fetchrow (u t) = some (sh.db.update (u t)) := by
    intro t
    exact if_pos (Table.hits_iff.mpr ⟨job.id, r, hr, happlies t⟩)
  refine ⟨fun t => { sh with db := sh.db.update (u t) }, ?_, fun t => ?_⟩
  · have hx : exhausted job = false := by
      simp only [exhausted, decide_eq_false_iff_not, not_le]
      exact_mod_cast hleft
    rw [handleFailure, hx]
    refine congrArg (fun f => Option.map f _) (funext fun t => ?_)
    simp only [settle]
    rw [show sh.db.fetchrow (scheduleRetry sh.db.now (job.attemptCount + 1) t error job.id
      job.workerId) = some (sh.db.update (u t)) from hfetch t]
  · refine ⟨(u t).set r, ?_, rfl, rfl, rfl, rfl, rfl⟩
    show (sh.db.update (u t)).row job.id = _
    rw [row_update, hr, Option.map_some, Update.apply_of_applies (happlies t)]

theorem le_maxTimedelta {clock : Time} {delay : Int} (hclock : minDatetime ≤ clock)
    (h : clock + delay * second ≤ maxDatetime) : delay ≤ maxTimedeltaSeconds := by
  simp only [minDatetime, maxDatetime, second] at hclock h
  rw [maxTimedeltaSeconds]
  linarith

/-- **A retry is recorded exactly when** its time is a `datetime`. -/
theorem records_retry (hown : StillOwned sh w job)
    (hleft : job.attemptCount + 1 < job.maxAttempts) (hbase : 0 ≤ cfg.baseRetryDelaySeconds)
    (hclock : minDatetime ≤ env.clock) : RecordsRetry cfg w env sh job error ↔
      env.clock + cfg.baseRetryDelaySeconds * 2 ^ job.attemptCount * second ≤ maxDatetime := by
  obtain ⟨f, hf, hrow⟩ := handleFailure_eq cfg env error hown hleft
  constructor
  · rintro ⟨-, sh', notice, r, h, -⟩
    rw [hf] at h
    obtain ⟨t, ht, -⟩ := Option.map_eq_some_iff.mp h
    exact (datetime?_eq_some.mp ht).2.2
  · intro hle
    have hdelay : 0 ≤ cfg.baseRetryDelaySeconds * 2 ^ job.attemptCount * second :=
      mul_nonneg (mul_nonneg hbase (pow_nonneg (by decide) _)) (by decide)
    obtain ⟨r, hr⟩ := hrow (env.clock + cfg.baseRetryDelaySeconds * 2 ^ job.attemptCount * second)
    refine ⟨le_maxTimedelta hclock hle, f _, some ⟨job.id, job.callbackUrl, .failed⟩, r, ?_, hr⟩
    rw [hf, datetime?_eq_some.mpr ⟨rfl, by linarith, hle⟩, Option.map_some]

/-- In every run a worker that fails a delivery below the cap, of a job that it
still owns, records the retry. -/
def AlwaysRetries (cfg : Settings) : Prop :=
  ∀ h s w job error env, Lts.Run (system cfg) always h s →
    (s.workers w).pc = .failing job error → StillOwned s.toShared w job →
    job.attemptCount + 1 < job.maxAttempts → minDatetime ≤ env.clock → env.clock ≤ maxDatetime →
    RecordsRetry cfg w env s.toShared job error

/-- Job `7` is promoted, and its delivery by worker `1` fails. -/
def failedDelivery : List Action :=
  .createJob 7 plainJob :: promotion 0 7 ++ claim 1 ++ [work 1, work 1, work 1]

/-- Worker `1` is in `handle_failure` with job `7`, which it still owns, after the
first of five attempts. -/
def firstFailure (s : State) : Bool :=
  match (s.workers 1).pc with
  | .failing job _ => decide (job.id = 7) && decide (job.workerId = some 1) &&
      decide (job.attemptCount = 0) && decide (job.maxAttempts = 5) &&
      (s.row 7).any (fun r => decide (r.status = .claimed) && decide (r.workerId = some 1))
  | _ => false

theorem failedDelivery_run (cfg : Settings)
    (hrun : ((system cfg).exec always State.empty failedDelivery).map
      (fun p : State × List Event => firstFailure p.1) = some true) :
    ∃ h s job error, Lts.Run (system cfg) always h s ∧ (s.workers 1).pc = .failing job error ∧
      StillOwned s.toShared 1 job ∧ job.attemptCount = 0 ∧ job.maxAttempts = 5 := by
  obtain ⟨s, h, hr, hf⟩ := Lts.run_of_replay (system cfg) always failedDelivery _ _
    initial_empty hrun
  unfold firstFailure at hf
  split at hf
  · rename_i job error hpc
    simp only [Bool.and_eq_true, decide_eq_true_eq, Option.any_eq_true] at hf
    obtain ⟨⟨⟨⟨hid, hw⟩, hn⟩, hmax⟩, r, hr7, hc, hrw⟩ := hf
    refine ⟨h, s, job, error, hr, hpc, ⟨hw, r, ?_, hc, hrw⟩, hn, hmax⟩
    rw [hid]
    exact hr7
  · cases hf

/-- With the default delay the first retry is recorded, at any time of the year 2026. -/
theorem records_retry_first : ∃ h s job error, Lts.Run (system {}) always h s ∧
    (s.workers 1).pc = .failing job error ∧
    RecordsRetry {} 1 { clock := 1767225600 * second } s.toShared job error := by
  obtain ⟨h, s, job, error, hr, hpc, hown, hn, hmax⟩ := failedDelivery_run {} (by decide +kernel)
  refine ⟨h, s, job, error, hr, hpc, (records_retry hown ?_ (by decide) (by decide)).mpr ?_⟩
  · rw [hn, hmax]
    decide
  · rw [hn]
    decide

/-- With a delay of `10 ** 12` seconds the first retry is due in the year 33715, and the
job stays claimed. -/
theorem not_always_retries : ¬ AlwaysRetries { baseRetryDelaySeconds := 10 ^ 12 } := by
  intro hall
  obtain ⟨h, s, job, error, hr, hpc, hown, hn, hmax⟩ :=
    failedDelivery_run { baseRetryDelaySeconds := 10 ^ 12 } (by decide +kernel)
  have hleft : job.attemptCount + 1 < job.maxAttempts := by
    rw [hn, hmax]
    decide
  obtain ⟨-, sh', notice, r, hf, -⟩ := hall h s 1 job error { clock := 1767225600 * second } hr hpc
    hown hleft (by decide) (by decide)
  obtain ⟨f, hf', -⟩ := handleFailure_eq { baseRetryDelaySeconds := 10 ^ 12 }
    { clock := 1767225600 * second } error hown hleft
  rw [hf', hn] at hf
  obtain ⟨t, ht, -⟩ := Option.map_eq_some_iff.mp hf
  exact absurd (datetime?_eq_some.mp ht).2.2 (by decide)

end NotifyQueue
