import Mathlib.Algebra.Ring.Int.Defs
import NotifyQueue.Model.Redis
import NotifyQueue.Model.Statements

/-!
# Workers and schedulers, one await at a time

A process is a program counter that holds its local variables.  `workerNext`
and `schedulerNext` take it over one `await`: the statement or the Redis command
there completes, and the code up to the next `await` runs.  `none` means that
the code raises there and cannot complete; `workerRaise` and `schedulerRaise`
are the exception, possible at every `await`, whether the code forces it or the
connection fails.  A statement whose answer is lost is a completed step
followed by an exception.

`Env` is what the outside answers: the process's clock, the random draw, the
HTTP response and the choices of the database.

Of the code, `claim_next_job` is `popping` to `unlocking`, `execute_delivery`
and its handlers `fetching` to `failing`, and the release of the lock with
`fire_webhook` the rest.  `joining` is the `finally` of `process_job`, which
waits for the heartbeat task.
-/

namespace NotifyQueue

/-- What a step is told by the outside. -/
structure Env where
  clock : Time := 0
  random : Rat := 0
  http : Option Nat := none
  locked : List JobId := []
  batch : List JobId := []

/-- What can be observed of a step. -/
inductive Event
  | created (id : JobId)
  | promoted (id : JobId)
  | claimed (w : WorkerId) (id : JobId)
  | sent (w : WorkerId) (id : JobId)
  | retried (w : WorkerId) (id : JobId)
  | deferred (w : WorkerId) (id : JobId)
  /-- By a worker or by the recovery path, with the status before. -/
  | deadLettered (caller : Option WorkerId) (status : Option JobStatus) (id : JobId)
  | reclaimed (id : JobId)
  | replayed (id : JobId)
  /-- `SET NX` was refused on a popped job. -/
  | refused (w : WorkerId) (id : JobId)
  /-- `handle_success` was reached. -/
  | delivered (w : WorkerId) (id : JobId)
  /-- An outcome write matched no row: "no longer owned". -/
  | lost (w : WorkerId) (id : JobId)
  /-- `fire_webhook` was called. -/
  | dispatched (id : JobId) (status : StatusChange)
deriving DecidableEq

/-- The arguments of a `fire_webhook` call. -/
structure Notice where
  jobId : JobId
  callbackUrl : Option String
  status : StatusChange

structure Shared where
  db : Db
  redis : Redis

/-! ### Webhooks -/

/-- One attempt of `fire_webhook`: the log row, and the next attempt if any. -/
def fireWebhook (cfg : Settings) (env : Env) (db : Db) (n : Notice) (attempt : Nat) :
    Db × Option Nat :=
  match n.callbackUrl with
  | none => (db, none)
  | some url =>
    if url = "" ∨ cfg.webhookMaxAttempts < attempt then (db, none)
    else
      let logged := { db with
        webhookLog := db.webhookLog ++ [⟨n.jobId, url, n.status, env.http, attempt⟩] }
      if env.http.any (fun status => decide (status < 500)) then (logged, none)
      else if attempt < cfg.webhookMaxAttempts then (logged, some (attempt + 1))
      else (logged, none)

/-! ### Workers -/

inductive WorkerPc
  | popping (rest : List Priority)
  | locking (id : JobId) (rest : List Priority)
  | claiming (id : JobId) (rest : List Priority)
  | unlocking (id : JobId) (rest : List Priority)
  | fetching (id : JobId)
  | limiting (job : Job)
  | undoing (job : Job) (checkedAt : Time)
  | deferring (job : Job) (checkedAt : Time)
  | delivering (job : Job)
  | succeeding (job : Job)
  | failing (job : Job) (error : String)
  | releasing (id : JobId) (notice : Option Notice)
  | firing (notice : Notice) (attempt : Nat)
  | joining
  | crashed

def priorityOrder : List Priority := [.high, .medium, .low]

/-- The fenced update that ends `handle_success`, `handle_failure` below the
cap and `defer_job`: on a match the lock is released next and `notice` sent. -/
def settle (w : WorkerId) (sh : Shared) (id : JobId) (u : KeyedTable.Update Job) (done : Event)
    (notice : Option Notice) : Shared × WorkerPc × List Event :=
  match sh.db.fetchrow u with
  | none => (sh, .joining, [.lost w id])
  | some db => ({ sh with db := db }, .releasing id notice, [done])

/-- `handle_success`. -/
def handleSuccess (w : WorkerId) (sh : Shared) (job : Job) : Shared × WorkerPc × List Event :=
  settle w sh job.id (markSent sh.db.now job.id job.workerId) (.sent w job.id)
    (some ⟨job.id, job.callbackUrl, .sent⟩)

/-- `defer_job`. -/
def deferJob (w : WorkerId) (env : Env) (sh : Shared) (job : Job) (retryAfterSeconds : Int) :
    Option (Shared × WorkerPc × List Event) :=
  (datetime? (env.clock + retryAfterSeconds * second)).map (fun nextWindow =>
    settle w sh job.id (deferToNextWindow sh.db.now nextWindow job.id job.workerId)
      (.deferred w job.id) none)

def Channel.text : Channel → String
  | .email => "email"
  | .sms => "sms"
  | .push => "push"

/-- The error of a simulated failure. -/
def deliveryError (job : Job) : String :=
  "simulated delivery failure on channel " ++ job.channel.text

/-- Whether `handle_failure` dead-letters: the attempt that failed is the last. -/
def exhausted (job : Job) : Bool := decide (job.maxAttempts ≤ (job.attemptCount + 1 : Nat))

/-- The backoff of `handle_failure` after attempt number `attempt`, in seconds. -/
def retryDelay (cfg : Settings) (attempt : Nat) : Int :=
  cfg.baseRetryDelaySeconds * 2 ^ (attempt - 1)

/-- The `dead_letter` call of `handle_failure`, cut short or not. -/
def failureTxn (db : Db) (job : Job) (error : String) (cut : Option TxnPoint) : Db × TxnResult :=
  deadLetterTxn db job.letterFields (some error) (job.attemptCount + 1) job.workerId cut

/-- `handle_failure`. -/
def handleFailure (cfg : Settings) (w : WorkerId) (env : Env) (sh : Shared) (job : Job)
    (error : String) : Option (Shared × WorkerPc × List Event) :=
  if exhausted job then
    match failureTxn sh.db job error none with
    | (db, .committed) => some ({ sh with db := db },
        .releasing job.id (some ⟨job.id, job.callbackUrl, .deadLettered⟩),
        [.deadLettered (some w) ((sh.db.row job.id).map Job.status) job.id])
    | _ => some (sh, .joining, [.lost w job.id])
  else
    let attempt := job.attemptCount + 1
    (datetime? (env.clock + retryDelay cfg attempt * second)).map (fun nextRetryAt =>
      settle w sh job.id
        (scheduleRetry sh.db.now attempt nextRetryAt error job.id job.workerId)
        (.retried w job.id) (some ⟨job.id, job.callbackUrl, .failed⟩))

/-- A worker over one `await`. -/
def workerNext (cfg : Settings) (w : WorkerId) (env : Env) (sh : Shared) :
    WorkerPc → Option (Shared × WorkerPc × List Event)
  -- `None` is returned: `worker_loop` sleeps and calls again
  | .popping [] => some (sh, .popping priorityOrder, [])
  | .popping (p :: rest) =>
    match sh.redis.zpopmin p with
    | none => some (sh, .popping rest, [])
    | some (id, redis) => some ({ sh with redis := redis }, .locking id rest, [])
  | .locking id rest =>
    -- Redis answers a non-positive `EX` with an error
    if cfg.jobLockTtlSeconds ≤ 0 then none
    else
      match sh.redis.setLock id w cfg.jobLockTtlSeconds with
      | none => some (sh, .popping rest, [.refused w id])
      | some redis => some ({ sh with redis := redis }, .claiming id rest, [])
  | .claiming id rest =>
    match sh.db.fetchrow (claimQueuedJob sh.db.now w id) with
    | none => some (sh, .unlocking id rest, [])
    | some db => some ({ sh with db := db }, .fetching id, [.claimed w id])
  | .unlocking id rest =>
    some ({ sh with redis := sh.redis.deleteLock id }, .popping rest, [])
  | .fetching id => (sh.db.row id).map (fun job => (sh, .limiting job, []))
  | .limiting job =>
    match sh.redis.incrWithTtl (windowKey job.recipient env.clock) with
    | (count, redis) =>
      if cfg.rateLimitPerHour < count then
        some ({ sh with redis := redis }, .undoing job env.clock, [])
      else some ({ sh with redis := redis }, .delivering job, [])
  | .undoing job checkedAt =>
    some ({ sh with redis := sh.redis.decr (windowKey job.recipient checkedAt) },
      .deferring job checkedAt, [])
  | .deferring job checkedAt =>
    (secondsUntilNextWindow checkedAt).bind (fun retryAfter => deferJob w env sh job retryAfter)
  | .delivering job =>
    if env.random < cfg.deliveryFailureRate then some (sh, .failing job (deliveryError job), [])
    else some (sh, .succeeding job, [.delivered w job.id])
  | .succeeding job => some (handleSuccess w sh job)
  | .failing job error => handleFailure cfg w env sh job error
  | .releasing id none => some ({ sh with redis := sh.redis.deleteLock id }, .joining, [])
  | .releasing id (some n) => some ({ sh with redis := sh.redis.deleteLock id }, .firing n 1,
      [.dispatched n.jobId n.status])
  | .firing n attempt =>
    match fireWebhook cfg env sh.db n attempt with
    | (db, none) => some ({ sh with db := db }, .joining, [])
    | (db, some next) => some ({ sh with db := db }, .firing n next, [])
  | .joining => some (sh, .popping priorityOrder, [])
  | .crashed => none

/-- An exception at a worker's `await`: `worker_loop` starts over, after the
`finally` of `process_job` if that was entered. -/
def workerRaise (cut : TxnPoint) (sh : Shared) : WorkerPc → Option (Shared × WorkerPc)
  | .crashed => none
  | .popping _ | .locking _ _ | .claiming _ _ | .unlocking _ _ | .joining =>
    some (sh, .popping priorityOrder)
  | .failing job error =>
    if exhausted job then
      some ({ sh with db := (failureTxn sh.db job error (some cut)).1 }, .joining)
    else some (sh, .joining)
  | _ => some (sh, .joining)

/-- A worker, with the job its heartbeat task is for. -/
structure Worker where
  pc : WorkerPc
  heartbeat : Option JobId

def Worker.start : Worker := ⟨.popping priorityOrder, none⟩

/-- The heartbeat task starts with `process_job` and has ended when the next
iteration starts. -/
def heartbeatAt (heartbeat : Option JobId) : WorkerPc → Option JobId
  | .fetching id => some id
  | .popping _ => none
  | _ => heartbeat

def Worker.goto (wk : Worker) (pc : WorkerPc) : Worker := ⟨pc, heartbeatAt wk.heartbeat pc⟩

/-- What a worker can do next. -/
inductive WorkerChoice
  | run (env : Env)
  | raise (cut : TxnPoint)
  /-- An `UPDATE_HEARTBEAT` of the heartbeat task. -/
  | beat
  /-- The heartbeat task ends with an exception. -/
  | loseHeartbeat
  | crash

def workerStep (cfg : Settings) (w : WorkerId) (sh : Shared) (wk : Worker) :
    WorkerChoice → Option (Shared × Worker × List Event)
  | .run env =>
    (workerNext cfg w env sh wk.pc).map (fun (sh', pc, es) => (sh', wk.goto pc, es))
  | .raise cut => (workerRaise cut sh wk.pc).map (fun (sh', pc) => (sh', wk.goto pc, []))
  | .beat => wk.heartbeat.map (fun id =>
      ({ sh with db := sh.db.update (updateHeartbeat sh.db.now id w) }, wk, []))
  | .loseHeartbeat => wk.heartbeat.map (fun _ => (sh, { wk with heartbeat := none }, []))
  | .crash => some (sh, ⟨.crashed, none⟩, [])

/-! ### Schedulers -/

inductive SchedulerPc
  | promoting
  | enqueuing (rows : List QueueRow) (requeued : Bool)
  | recovering
  | reclaiming (rows : List RecoveredRow)
  | burying (row : RecoveredRow) (rest : List RecoveredRow)
  | releasing (notice : Notice) (rest : List RecoveredRow)
  | firing (notice : Notice) (attempt : Nat) (rest : List RecoveredRow)
  | requeuing
  | crashed

/-- Whether recovery dead-letters a row it has reset. -/
def atCap (row : RecoveredRow) : Bool := decide (row.maxAttempts ≤ row.attemptCount)

/-- The `dead_letter` call of `recover_stale_claimed_jobs`, cut short or not. -/
def recoveryTxn (db : Db) (row : RecoveredRow) (cut : Option TxnPoint) : Db × TxnResult :=
  deadLetterTxn db row.toLetterFields row.errorMessage row.attemptCount none cut

/-- A scheduler over one `await`: promote, recover, requeue, and over again. -/
def schedulerNext (cfg : Settings) (env : Env) (sh : Shared) :
    SchedulerPc → Option (Shared × SchedulerPc × List Event)
  | .promoting =>
    if promotes cfg sh.db env.locked env.batch then
      let db := sh.db.update (promoteIds sh.db.now env.batch)
      some ({ sh with db := db },
        if env.batch.isEmpty then .recovering
        else .enqueuing (db.returning Job.queueRow env.batch) false,
        env.batch.map .promoted)
    else none
  | .enqueuing rows requeued =>
    some ({ sh with redis := sh.redis.enqueue rows },
      if requeued then .promoting else .recovering, [])
  | .recovering =>
    if recovers cfg sh.db env.batch then
      let db := sh.db.update (recoverStaleClaimed sh.db.now cfg.heartbeatTimeout)
      some ({ sh with db := db }, .reclaiming (db.returning Job.recoveredRow env.batch),
        env.batch.map .reclaimed)
    else none
  | .reclaiming [] => some (sh, .requeuing, [])
  | .reclaiming (row :: rest) =>
    some ({ sh with redis := sh.redis.deleteLock row.id },
      if atCap row then .burying row rest else .reclaiming rest, [])
  | .burying row rest =>
    match recoveryTxn sh.db row none with
    | (db, .committed) => some ({ sh with db := db },
        .releasing ⟨row.id, row.callbackUrl, .deadLettered⟩ rest,
        [.deadLettered none ((sh.db.row row.id).map Job.status) row.id])
    | _ => some (sh, .reclaiming rest, [])
  | .releasing n rest => some ({ sh with redis := sh.redis.deleteLock n.jobId }, .firing n 1 rest,
      [.dispatched n.jobId n.status])
  | .firing n attempt rest =>
    match fireWebhook cfg env sh.db n attempt with
    | (db, none) => some ({ sh with db := db }, .reclaiming rest, [])
    | (db, some next) => some ({ sh with db := db }, .firing n next rest, [])
  | .requeuing =>
    if requeues cfg sh.db env.batch then
      some (sh,
        if env.batch.isEmpty then .promoting
        else .enqueuing (sh.db.returning Job.queueRow env.batch) true, [])
    else none
  | .crashed => none

/-- An exception at a scheduler's `await`: the tick is given up, and the next
one starts. -/
def schedulerRaise (cut : TxnPoint) (sh : Shared) : SchedulerPc → Option (Shared × SchedulerPc)
  | .crashed => none
  | .burying row _ => some ({ sh with db := (recoveryTxn sh.db row (some cut)).1 }, .promoting)
  | _ => some (sh, .promoting)

/-- What a scheduler can do next. -/
inductive SchedulerChoice
  | run (env : Env)
  | raise (cut : TxnPoint)
  | crash

def schedulerStep (cfg : Settings) (sh : Shared) (pc : SchedulerPc) :
    SchedulerChoice → Option (Shared × SchedulerPc × List Event)
  | .run env => schedulerNext cfg env sh pc
  | .raise cut => (schedulerRaise cut sh pc).map (fun (sh', pc') => (sh', pc', []))
  | .crash => some (sh, .crashed, [])

end NotifyQueue
