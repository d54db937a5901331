import NotifyQueue.Job.Rows

/-!
# One `await` of a process

`WorkerAwait` lists what a worker can do over one `await`, one entry for each
way through `workerNext`, with what that way has checked; `SchedulerAwait` is the
same for `schedulerNext`.  The three handlers that end in a fenced update,
`handle_success`, `handle_failure` below the cap and `defer_job`, differ in what
they write and report (`Settling`) and go one of two ways from there.

An exception changes nothing that is shared: what a `dead_letter` transaction
had written is rolled back (`worker_raise`, `scheduler_raise`).
-/

namespace NotifyQueue

open KeyedTable

/-- The handlers that end in a fenced update of the job's row: the update, what a
match reports, and the webhook that follows. -/
inductive Settling (cfg : Settings) (w : WorkerId) (env : Env) (now : Time) :
    WorkerPc → Job → Update Job → Event → Option Notice → Prop
  | success {job : Job} :
      Settling cfg w env now (.succeeding job) job (markSent now job.id job.workerId)
        (.sent w job.id) (some ⟨job.id, job.callbackUrl, .sent⟩)
  | failure {job : Job} {error : String} {nextRetryAt : Time} : exhausted job = false →
      datetime? (env.clock + retryDelay cfg (job.attemptCount + 1) * second) =
        some nextRetryAt →
      Settling cfg w env now (.failing job error) job
        (scheduleRetry now (job.attemptCount + 1) nextRetryAt error job.id job.workerId)
        (.retried w job.id) (some ⟨job.id, job.callbackUrl, .failed⟩)
  | deferral {job : Job} {checkedAt nextWindow : Time} {retryAfter : Int} :
      secondsUntilNextWindow checkedAt = some retryAfter →
      datetime? (env.clock + retryAfter * second) = some nextWindow →
      Settling cfg w env now (.deferring job checkedAt) job
        (deferToNextWindow now nextWindow job.id job.workerId) (.deferred w job.id) none

/-- What a worker can do over one `await`. -/
inductive WorkerAwait (cfg : Settings) (w : WorkerId) (env : Env) (sh : Shared) :
    WorkerPc → Shared → WorkerPc → List Event → Prop
  | sleep : WorkerAwait cfg w env sh (.popping []) sh (.popping priorityOrder) []
  | empty {p : Priority} {rest : List Priority} :
      WorkerAwait cfg w env sh (.popping (p :: rest)) sh (.popping rest) []
  | pop {p : Priority} {rest : List Priority} {id : JobId} {redis : Redis} :
      sh.redis.zpopmin p = some (id, redis) →
      WorkerAwait cfg w env sh (.popping (p :: rest)) { sh with redis := redis }
        (.locking id rest) []
  | refuse {id : JobId} {rest : List Priority} {l : Lock} : sh.redis.lock? id = some l →
      WorkerAwait cfg w env sh (.locking id rest) sh (.popping rest) [.refused w id]
  | lock {id : JobId} {rest : List Priority} {redis : Redis} :
      sh.redis.setLock id w cfg.jobLockTtlSeconds = some redis →
      WorkerAwait cfg w env sh (.locking id rest) { sh with redis := redis }
        (.claiming id rest) []
  | gate {id : JobId} {rest : List Priority} :
      sh.db.fetchrow (claimQueuedJob sh.db.now w id) = none →
      WorkerAwait cfg w env sh (.claiming id rest) sh (.unlocking id rest) []
  | claim {id : JobId} {rest : List Priority} {db : Db} :
      sh.db.fetchrow (claimQueuedJob sh.db.now w id) = some db →
      WorkerAwait cfg w env sh (.claiming id rest) { sh with db := db } (.fetching id)
        [.claimed w id]
  | unlock {id : JobId} {rest : List Priority} :
      WorkerAwait cfg w env sh (.unlocking id rest)
        { sh with redis := sh.redis.deleteLock id } (.popping rest) []
  | fetch {id : JobId} {job : Job} : sh.db.row id = some job → job.id = id →
      WorkerAwait cfg w env sh (.fetching id) sh (.limiting job) []
  | reject {job : Job} :
      cfg.rateLimitPerHour < (sh.redis.incrWithTtl (windowKey job.recipient env.clock)).1 →
      WorkerAwait cfg w env sh (.limiting job)
        { sh with redis := (sh.redis.incrWithTtl (windowKey job.recipient env.clock)).2 }
        (.undoing job env.clock) []
  | allow {job : Job} :
      ¬ cfg.rateLimitPerHour < (sh.redis.incrWithTtl (windowKey job.recipient env.clock)).1 →
      WorkerAwait cfg w env sh (.limiting job)
        { sh with redis := (sh.redis.incrWithTtl (windowKey job.recipient env.clock)).2 }
        (.delivering job) []
  | undo {job : Job} {checkedAt : Time} :
      WorkerAwait cfg w env sh (.undoing job checkedAt)
        { sh with redis := sh.redis.decr (windowKey job.recipient checkedAt) }
        (.deferring job checkedAt) []
  | fail {job : Job} :
      WorkerAwait cfg w env sh (.delivering job) sh (.failing job (deliveryError job)) []
  | deliver {job : Job} :
      WorkerAwait cfg w env sh (.delivering job) sh (.succeeding job) [.delivered w job.id]
  | settle {pc : WorkerPc} {job : Job} {u : Update Job} {done : Event}
      {notice : Option Notice} {db : Db} :
      Settling cfg w env sh.db.now pc job u done notice → sh.db.fetchrow u = some db →
      WorkerAwait cfg w env sh pc { sh with db := db } (.releasing job.id notice) [done]
  | lose {pc : WorkerPc} {job : Job} {u : Update Job} {done : Event}
      {notice : Option Notice} :
      Settling cfg w env sh.db.now pc job u done notice → sh.db.fetchrow u = none →
      WorkerAwait cfg w env sh pc sh .joining [.lost w job.id]
  | bury {job : Job} {error : String} {db : Db} : exhausted job = true →
      failureTxn sh.db job error none = (db, .committed) →
      WorkerAwait cfg w env sh (.failing job error) { sh with db := db }
        (.releasing job.id (some ⟨job.id, job.callbackUrl, .deadLettered⟩))
        [.deadLettered (some w) ((sh.db.row job.id).map Job.status) job.id]
  | loseLast {job : Job} {error : String} : exhausted job = true →
      (failureTxn sh.db job error none).2 ≠ .committed →
      WorkerAwait cfg w env sh (.failing job error) sh .joining [.lost w job.id]
  | release {id : JobId} :
      WorkerAwait cfg w env sh (.releasing id none)
        { sh with redis := sh.redis.deleteLock id } .joining []
  | announce {id : JobId} {n : Notice} :
      WorkerAwait cfg w env sh (.releasing id (some n))
        { sh with redis := sh.redis.deleteLock id } (.firing n 1)
        [.dispatched n.jobId n.status]
  | fire {n : Notice} {attempt : Nat} {db : Db} :
      fireWebhook cfg env sh.db n attempt = (db, none) →
      WorkerAwait cfg w env sh (.firing n attempt) { sh with db := db } .joining []
  | refire {n : Notice} {attempt next : Nat} {db : Db} :
      fireWebhook cfg env sh.db n attempt = (db, some next) →
      WorkerAwait cfg w env sh (.firing n attempt) { sh with db := db } (.firing n next) []
  | join : WorkerAwait cfg w env sh .joining sh (.popping priorityOrder) []

/-- What a scheduler can do over one `await`. -/
inductive SchedulerAwait (cfg : Settings) (env : Env) (sh : Shared) :
    SchedulerPc → Shared → SchedulerPc → List Event → Prop
  | promote {db : Db} {pc' : SchedulerPc} : promotes cfg sh.db env.locked env.batch = true →
      db = sh.db.update (promoteIds sh.db.now env.batch) →
      (env.batch = [] ∧ pc' = .recovering ∨
        pc' = .enqueuing (db.returning Job.queueRow env.batch) false) →
      SchedulerAwait cfg env sh .promoting { sh with db := db } pc' (env.batch.map .promoted)
  | enqueue {rows : List QueueRow} :
      SchedulerAwait cfg env sh (.enqueuing rows false)
        { sh with redis := sh.redis.enqueue rows } .recovering []
  | reenqueue {rows : List QueueRow} :
      SchedulerAwait cfg env sh (.enqueuing rows true)
        { sh with redis := sh.redis.enqueue rows } .promoting []
  | recover {db : Db} : recovers cfg sh.db env.batch = true →
      db = sh.db.update (recoverStaleClaimed sh.db.now cfg.heartbeatTimeout) →
      SchedulerAwait cfg env sh .recovering { sh with db := db }
        (.reclaiming (db.returning Job.recoveredRow env.batch)) (env.batch.map .reclaimed)
  | recovered : SchedulerAwait cfg env sh (.reclaiming []) sh .requeuing []
  | unlock {row : RecoveredRow} {rest : List RecoveredRow} : atCap row = false →
      SchedulerAwait cfg env sh (.reclaiming (row :: rest))
        { sh with redis := sh.redis.deleteLock row.id } (.reclaiming rest) []
  | unlockLast {row : RecoveredRow} {rest : List RecoveredRow} : atCap row = true →
      SchedulerAwait cfg env sh (.reclaiming (row :: rest))
        { sh with redis := sh.redis.deleteLock row.id } (.burying row rest) []
  | bury {row : RecoveredRow} {rest : List RecoveredRow} {db : Db} :
      recoveryTxn sh.db row none = (db, .committed) →
      SchedulerAwait cfg env sh (.burying row rest) { sh with db := db }
        (.releasing ⟨row.id, row.callbackUrl, .deadLettered⟩ rest)
        [.deadLettered none ((sh.db.row row.id).map Job.status) row.id]
  | skip {row : RecoveredRow} {rest : List RecoveredRow} :
      (recoveryTxn sh.db row none).2 ≠ .committed →
      SchedulerAwait cfg env sh (.burying row rest) sh (.reclaiming rest) []
  | announce {n : Notice} {rest : List RecoveredRow} :
      SchedulerAwait cfg env sh (.releasing n rest)
        { sh with redis := sh.redis.deleteLock n.jobId } (.firing n 1 rest)
        [.dispatched n.jobId n.status]
  | fire {n : Notice} {attempt : Nat} {rest : List RecoveredRow} {db : Db} :
      fireWebhook cfg env sh.db n attempt = (db, none) →
      SchedulerAwait cfg env sh (.firing n attempt rest) { sh with db := db }
        (.reclaiming rest) []
  | refire {n : Notice} {attempt next : Nat} {rest : List RecoveredRow} {db : Db} :
      fireWebhook cfg env sh.db n attempt = (db, some next) →
      SchedulerAwait cfg env sh (.firing n attempt rest) { sh with db := db }
        (.firing n next rest) []
  | requeue {pc' : SchedulerPc} : requeues cfg sh.db env.batch = true →
      (env.batch = [] ∧ pc' = .promoting ∨
        pc' = .enqueuing (sh.db.returning Job.queueRow env.batch) true) →
      SchedulerAwait cfg env sh .requeuing sh pc' []

variable {cfg : Settings} {w : WorkerId} {env : Env} {sh sh' : Shared} {es : List Event}

/-! ### The fenced updates -/

theorem Settling.applies_iff {now : Time} {pc : WorkerPc} {job r : Job} {u : Update Job}
    {done : Event} {notice : Option Notice}
    (hu : Settling cfg w env now pc job u done notice) : u.applies r = true ↔
      r.id = job.id ∧ (r.workerId = job.workerId ∧ r.workerId ≠ none) ∧ r.status = .claimed := by
  cases hu <;> exact fenced_iff

/-! ### The lists are complete -/

/-- A handler that settles goes one of two ways. -/
theorem await_of_settle {pc pc' : WorkerPc} {job : Job} {u : Update Job} {done : Event}
    {notice : Option Notice} (hu : Settling cfg w env sh.db.now pc job u done notice)
    (h : settle w sh job.id u done notice = (sh', pc', es)) :
    WorkerAwait cfg w env sh pc sh' pc' es := by
  unfold settle at h
  split at h
  · rename_i hf
    cases h
    exact .lose hu hf
  · rename_i db hf
    cases h
    exact .settle hu hf

theorem await_of_failure {pc' : WorkerPc} {job : Job} {error : String}
    (h : handleFailure cfg w env sh job error = some (sh', pc', es)) :
    WorkerAwait cfg w env sh (.failing job error) sh' pc' es := by
  unfold handleFailure at h
  split at h
  · rename_i hx
    split at h
    · rename_i db htxn
      cases h
      exact .bury hx htxn
    · rename_i htxn
      cases h
      exact .loseLast hx (fun hc => htxn _ (Prod.ext rfl hc))
  · rename_i hx
    obtain ⟨next, hnext, hs⟩ := Option.map_eq_some_iff.mp h
    exact await_of_settle (.failure (by simpa using hx) hnext) hs

/-- **What a worker does over one `await`.** -/
theorem worker_await {pc pc' : WorkerPc} (h : workerNext cfg w env sh pc = some (sh', pc', es)) :
    WorkerAwait cfg w env sh pc sh' pc' es := by
  cases pc with
  | popping rest =>
    cases rest with
    | nil =>
      cases h
      exact .sleep
    | cons p rest =>
      simp only [workerNext] at h
      split at h
      · cases h
        exact .empty
      · rename_i hz
        cases h
        exact .pop hz
  | locking id rest =>
    simp only [workerNext] at h
    split at h
    · cases h
    · split at h
      · rename_i hl
        cases h
        obtain ⟨l, hheld⟩ := Option.ne_none_iff_exists'.mp (Redis.setLock_eq_none.mp hl)
        exact .refuse hheld
      · rename_i hl
        cases h
        exact .lock hl
  | claiming id rest =>
    simp only [workerNext] at h
    split at h
    · rename_i hf
      cases h
      exact .gate hf
    · rename_i hf
      cases h
      exact .claim hf
  | unlocking id rest =>
    cases h
    exact .unlock
  | fetching id =>
    obtain ⟨job, hj, he⟩ := Option.map_eq_some_iff.mp h
    cases he
    exact .fetch hj (Table.key_of_find? hj)
  | limiting job =>
    simp only [workerNext] at h
    split at h
    · rename_i hlim
      cases h
      exact .reject hlim
    · rename_i hlim
      cases h
      exact .allow hlim
  | undoing job checkedAt =>
    cases h
    exact .undo
  | deferring job checkedAt =>
    obtain ⟨retryAfter, hafter, hd⟩ := Option.bind_eq_some_iff.mp h
    obtain ⟨next, hnext, hs⟩ := Option.map_eq_some_iff.mp hd
    exact await_of_settle (.deferral hafter hnext) hs
  | delivering job =>
    simp only [workerNext] at h
    split at h
    · cases h
      exact .fail
    · cases h
      exact .deliver
  | succeeding job => exact await_of_settle .success (Option.some.inj h)
  | failing job error => exact await_of_failure h
  | releasing id notice =>
    cases notice with
    | none =>
      cases h
      exact .release
    | some n =>
      cases h
      exact .announce
  | firing n attempt =>
    simp only [workerNext] at h
    split at h
    · rename_i hw
      cases h
      exact .fire hw
    · rename_i hw
      cases h
      exact .refire hw
  | joining =>
    cases h
    exact .join
  | crashed => cases h

/-- **What a scheduler does over one `await`.** -/
theorem scheduler_await {pc pc' : SchedulerPc}
    (h : schedulerNext cfg env sh pc = some (sh', pc', es)) :
    SchedulerAwait cfg env sh pc sh' pc' es := by
  cases pc with
  | promoting =>
    simp only [schedulerNext] at h
    split at h
    · rename_i hp
      cases h
      refine .promote hp rfl ?_
      split
      · rename_i hb
        exact Or.inl ⟨List.isEmpty_iff.mp hb, rfl⟩
      · exact Or.inr rfl
    · cases h
  | enqueuing rows requeued =>
    cases h
    cases requeued with
    | false => exact .enqueue
    | true => exact .reenqueue
  | recovering =>
    simp only [schedulerNext] at h
    split at h
    · rename_i hp
      cases h
      exact .recover hp rfl
    · cases h
  | reclaiming rows =>
    cases rows with
    | nil =>
      cases h
      exact .recovered
    | cons row rest =>
      cases h
      split
      · rename_i hc
        exact .unlockLast hc
      · rename_i hc
        exact .unlock (by simpa using hc)
  | burying row rest =>
    simp only [schedulerNext] at h
    split at h
    · rename_i htxn
      cases h
      exact .bury htxn
    · rename_i htxn
      cases h
      exact .skip (fun hc => htxn _ (Prod.ext rfl hc))
  | releasing n rest =>
    cases h
    exact .announce
  | firing n attempt rest =>
    simp only [schedulerNext] at h
    split at h
    · rename_i hw
      cases h
      exact .fire hw
    · rename_i hw
      cases h
      exact .refire hw
  | requeuing =>
    simp only [schedulerNext] at h
    split at h
    · rename_i hp
      cases h
      refine .requeue hp ?_
      split
      · rename_i hb
        exact Or.inl ⟨List.isEmpty_iff.mp hb, rfl⟩
      · exact Or.inr rfl
    · cases h
  | crashed => cases h

/-! ### Exceptions -/

/-- **An exception at a worker's `await`** changes nothing that is shared, and
the job is let go. -/
theorem worker_raise {cut : TxnPoint} {pc pc' : WorkerPc}
    (h : workerRaise cut sh pc = some (sh', pc')) :
    sh' = sh ∧ (pc' = .popping priorityOrder ∨ pc' = .joining) := by
  unfold workerRaise at h
  split at h
  case h_1 => cases h
  case h_7 job error =>
    split at h <;> cases h
    · rw [failureTxn, deadLetterTxn_not_committed (by rw [deadLetterTxn_cut]; simp)]
      exact ⟨rfl, Or.inr rfl⟩
    · exact ⟨rfl, Or.inr rfl⟩
  case h_8 =>
    cases h
    exact ⟨rfl, Or.inr rfl⟩
  all_goals
    cases h
    exact ⟨rfl, Or.inl rfl⟩

/-- **An exception at a scheduler's `await`** changes nothing that is shared, and
the tick is given up. -/
theorem scheduler_raise {cut : TxnPoint} {pc pc' : SchedulerPc}
    (h : schedulerRaise cut sh pc = some (sh', pc')) : sh' = sh ∧ pc' = .promoting := by
  unfold schedulerRaise at h
  split at h <;> cases h
  · rw [recoveryTxn, deadLetterTxn_not_committed (by rw [deadLetterTxn_cut]; simp)]
    exact ⟨rfl, rfl⟩
  · exact ⟨rfl, rfl⟩

end NotifyQueue
