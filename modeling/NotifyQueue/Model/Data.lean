import NotifyQueue.Lib.Table

/-!
# Settings, rows and clocks

The columns of `migrations/001_initial.sql` and the settings of `config.py`
that the pipeline reads.  Times are microseconds since the epoch, as
PostgreSQL and Python keep them; `Time` also stands for a span of time.
Identifiers are opaque: a job's UUID, a worker's id and the number of a
scheduler process are natural numbers, compared for equality, and for order
where `ZPOPMIN` breaks ties (UUIDs print in fixed width, so their text order is
the order of the numbers).
-/

namespace NotifyQueue

open KeyedTable

abbrev Time := Int

abbrev JobId := Nat
abbrev WorkerId := Nat
abbrev SchedulerId := Nat

/-- The JSON text that the `jsonb` codec of `db.py` stores and reads back. -/
abbrev Payload := String

/-- One second. -/
def second : Time := 1000000

/-- One hour. -/
def hour : Time := 3600 * second

/-- The first and the last instant of Python's `datetime`, years 1 and 9999. -/
def minDatetime : Time := -62135596800 * second
def maxDatetime : Time := 253402300800 * second - 1

/-- The result of `datetime` arithmetic, or `OverflowError`. -/
def datetime? (t : Time) : Option Time :=
  if minDatetime ≤ t ∧ t ≤ maxDatetime then some t else none

theorem datetime?_eq_some {x y : Time} :
    datetime? x = some y ↔ x = y ∧ minDatetime ≤ x ∧ x ≤ maxDatetime := by
  unfold datetime?
  split
  · rename_i h
    simp only [Option.some.injEq, h, and_self, and_true]
  · rename_i h
    simp only [reduceCtorEq, h, and_false]

inductive Channel
  | email | sms | push
deriving DecidableEq, Repr

inductive Priority
  | high | medium | low
deriving DecidableEq, Repr

inductive JobStatus
  | pending | queued | claimed | sent | failed | deadLettered
deriving DecidableEq, Repr

/-- `config.Settings`.  The `float` timeout is held in microseconds, the
precision of `make_interval`. -/
structure Settings where
  rateLimitPerHour : Int := 10
  deliveryFailureRate : Rat := 1 / 10
  maxAttempts : Int := 5
  baseRetryDelaySeconds : Int := 30
  schedulerLookaheadSeconds : Int := 5
  schedulerBatchSize : Int := 500
  queuedRequeueSeconds : Int := 30
  heartbeatTimeout : Time := 30 * second
  jobLockTtlSeconds : Int := 60
  webhookMaxAttempts : Nat := 3

/-- A row of `jobs`. -/
structure Job where
  id : JobId
  recipient : String
  channel : Channel
  payload : Payload
  sendAt : Time
  priority : Priority
  status : JobStatus
  attemptCount : Nat
  maxAttempts : Int
  nextRetryAt : Option Time
  workerId : Option WorkerId
  claimedAt : Option Time
  heartbeatAt : Option Time
  sentAt : Option Time
  failedAt : Option Time
  errorMessage : Option String
  callbackUrl : Option String
  updatedAt : Time

instance : Keyed Job JobId := ⟨Job.id⟩

/-- The columns `POST /jobs` fills in. -/
structure JobCreate where
  recipient : String
  channel : Channel
  payload : Payload
  sendAt : Time
  priority : Priority
  callbackUrl : Option String

/-- What `dead_letter` reads of the record it is given. -/
structure LetterFields where
  id : JobId
  recipient : String
  channel : Channel
  payload : Payload
  callbackUrl : Option String

def Job.letterFields (r : Job) : LetterFields :=
  ⟨r.id, r.recipient, r.channel, r.payload, r.callbackUrl⟩

/-- The columns `RECOVER_STALE_CLAIMED` returns. -/
structure RecoveredRow extends LetterFields where
  attemptCount : Nat
  maxAttempts : Int
  errorMessage : Option String

def Job.recoveredRow (r : Job) : RecoveredRow :=
  { r.letterFields with
    attemptCount := r.attemptCount, maxAttempts := r.maxAttempts, errorMessage := r.errorMessage }

/-- The columns `PROMOTE_DUE_JOBS` and `REQUEUE_STALE_QUEUED` return. -/
structure QueueRow where
  id : JobId
  priority : Priority
  sendAt : Time

def Job.queueRow (r : Job) : QueueRow := ⟨r.id, r.priority, r.sendAt⟩

/-- A row of `dead_letter_queue`. -/
structure DeadLetter where
  jobId : JobId
  recipient : String
  channel : Channel
  payload : Payload
  attemptCount : Nat
  lastError : Option String

/-- The `status` a webhook announces. -/
inductive StatusChange
  | sent | failed | deadLettered
deriving DecidableEq, Repr

/-- A row of `webhook_log`. -/
structure WebhookLog where
  jobId : JobId
  callbackUrl : String
  statusChange : StatusChange
  httpStatus : Option Nat
  attempt : Nat

/-- The database, with the clock that `NOW()` reads.  `deadLetterQueue` and
`webhookLog` are in the order of their inserts. -/
structure Db where
  now : Time
  jobs : Table Job
  deadLetterQueue : List DeadLetter
  webhookLog : List WebhookLog

end NotifyQueue
