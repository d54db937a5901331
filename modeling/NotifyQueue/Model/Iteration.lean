import NotifyQueue.Model.Calls

/-!
# Whole iterations

An iteration of `worker_loop` and a tick of the scheduler, with no step of anybody
else in between: `claim_next_job` and `process_job` by one worker, or
`promote_due_jobs` and `requeue_stale_queued_jobs` by one scheduler when there is no
stale claim to recover.  As in `NotifyQueue.Model.Calls`, `none` is an exception or an
answer that the database does not give.

The heartbeat task may run during `process_job`.  It writes two columns of the claimed
row that are overwritten or never read again when the job is done, so it is left out.
-/

namespace NotifyQueue

/-- What the outside answers during one `process_job`. -/
structure Outside where
  /-- The clock as `check_rate_limit` reads it. -/
  checkedAt : Time
  /-- The clock as `defer_job` or `handle_failure` reads it. -/
  clock : Time
  random : Rat
  /-- How each attempt of the webhook ends. -/
  reply : Nat → Reply

/-- `check_rate_limit`, but for the seconds that it returns. -/
def checkRateLimit (cfg : Settings) (recipient : String) (now : Time) (rd : Redis) :
    Bool × Redis :=
  match rd.incrWithTtl (windowKey recipient now) with
  | (count, redis) =>
    if cfg.rateLimitPerHour < count then (false, redis.decr (windowKey recipient now))
    else (true, redis)

/-- `execute_delivery` up to the outcome write: what is left to do is the place of the
worker after it. -/
def executeDelivery (cfg : Settings) (w : WorkerId) (o : Outside) (id : JobId) (sh : Shared) :
    Option (Shared × WorkerPc × List Event) :=
  (sh.db.row id).bind (fun job =>
    match checkRateLimit cfg job.recipient o.checkedAt sh.redis with
    | (false, redis) => (secondsUntilNextWindow o.checkedAt).bind (fun retryAfter =>
        deferJob w { clock := o.clock } { sh with redis := redis } job retryAfter)
    | (true, redis) =>
      if o.random < cfg.deliveryFailureRate then
        handleFailure cfg w { clock := o.clock } { sh with redis := redis } job
          (deliveryError job)
      else some (handleSuccess w { sh with redis := redis } job))

/-- The end of a handler: the lock is deleted and the webhook sent. -/
def release (cfg : Settings) (o : Outside) (sh : Shared) : WorkerPc → Shared
  | .releasing id none => { sh with redis := sh.redis.deleteLock id }
  | .releasing id (some n) =>
    ⟨(fireWebhookCall cfg.webhookMaxAttempts n o.reply sh.db).db, sh.redis.deleteLock id⟩
  | _ => sh

/-- `process_job`. -/
def processJob (cfg : Settings) (w : WorkerId) (o : Outside) (id : JobId) (sh : Shared) :
    Option Shared :=
  (executeDelivery cfg w o id sh).map (fun (sh', pc, _) => release cfg o sh' pc)

/-- One iteration of `worker_loop`, and the job it has claimed. -/
def iteration (cfg : Settings) (w : WorkerId) (o : Outside) (sh : Shared) :
    Option (Shared × Option JobId) :=
  (claimNextJob cfg w sh).bind (fun (sh', claimed) =>
    match claimed with
    | none => some (sh', none)
    | some id => (processJob cfg w o id sh').map (fun sh'' => (sh'', some id)))

/-- A tick of the scheduler that finds no stale claim: `promote_due_jobs` promotes
`ids`, and `requeue_stale_queued_jobs` enqueues `ids'` again. -/
def schedulerTick (cfg : Settings) (ids ids' : List JobId) (sh : Shared) : Option Shared :=
  (promoteDueJobs cfg ids sh).bind (fun (sh', _) =>
    if recovers cfg sh'.db [] then (requeueStaleQueuedJobs cfg ids' sh').map Prod.fst else none)

/-- A whole call of one of the processes. -/
inductive Call
  | iterate (w : WorkerId) (o : Outside)
  | tick (ids ids' : List JobId)

def Call.run (cfg : Settings) (sh : Shared) : Call → Option Shared
  | .iterate w o => (iteration cfg w o sh).map Prod.fst
  | .tick ids ids' => schedulerTick cfg ids ids' sh

/-- Calls one after another, each with the clocks of the database and of Redis that it
finds. -/
def runCalls (cfg : Settings) : List (Time × Time × Call) → Shared → Option Shared
  | [], sh => some sh
  | (t, u, c) :: rest, sh => (c.run cfg (sh.setClocks t u)).bind (runCalls cfg rest)

end NotifyQueue
