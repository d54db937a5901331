import Mathlib.Data.List.Perm.Basic
import NotifyQueue.Model.Data

/-!
# The SQL statements

Each `UPDATE` of the program is an `Update Job`: its `WHERE` clause and its
`SET` list.  A comparison with a `NULL` parameter is never true (`sqlEq`),
except under `IS NOT DISTINCT FROM`, which is equality of the two options.
`Db.fetchrow` runs a statement that `RETURNING id` reports on.

The three batch statements leave a choice to the database: the rows `LIMIT`
keeps, the rows `SKIP LOCKED` passes over, and the order in which `RETURNING`
and `SELECT` list them.  The choice is an argument here, and the statement
says which choices it admits.

`dead_letter` runs two statements in one transaction.  The first locks the row
until the transaction ends, so nobody sees or changes it in between and the
transaction is one step; `TxnPoint` says how far it got when it is cut short,
by an exception or by the death of its process, and rolled back.
-/

namespace NotifyQueue

open KeyedTable

/-- `a = b` on nullable columns. -/
def sqlEq {α : Type*} [DecidableEq α] (a b : Option α) : Bool := a.isSome && decide (a = b)

theorem sqlEq_iff {α : Type*} [DecidableEq α] {a b : Option α} :
    sqlEq a b = true ↔ a = b ∧ a ≠ none := by
  cases a <;> simp [sqlEq]

/-- `INSERT_JOB`, with the defaults of the other columns. -/
def insertJob (cfg : Settings) (now : Time) (id : JobId) (body : JobCreate) : Job where
  id := id
  recipient := body.recipient
  channel := body.channel
  payload := body.payload
  sendAt := body.sendAt
  priority := body.priority
  status := .pending
  attemptCount := 0
  maxAttempts := cfg.maxAttempts
  nextRetryAt := none
  workerId := none
  claimedAt := none
  heartbeatAt := none
  sentAt := none
  failedAt := none
  errorMessage := none
  callbackUrl := body.callbackUrl
  updatedAt := now

/-- `RETRY_DEAD_LETTERED_JOB`. -/
def retryDeadLetteredJob (now : Time) (id : JobId) : Update Job where
  applies r := decide (r.id = id) && decide (r.status = .deadLettered)
  set r := { r with
    status := .pending, attemptCount := 0, sendAt := now, nextRetryAt := none,
    errorMessage := none, failedAt := none, workerId := none, claimedAt := none,
    heartbeatAt := none, updatedAt := now }
  key_set _ := rfl

/-- `CLAIM_QUEUED_JOB`. -/
def claimQueuedJob (now : Time) (worker : WorkerId) (id : JobId) : Update Job where
  applies r := decide (r.id = id) && decide (r.status = .queued)
  set r := { r with
    status := .claimed, workerId := some worker, claimedAt := some now,
    heartbeatAt := some now, updatedAt := now }
  key_set _ := rfl

/-- `UPDATE_HEARTBEAT`. -/
def updateHeartbeat (now : Time) (id : JobId) (worker : WorkerId) : Update Job where
  applies r := decide (r.id = id) && sqlEq r.workerId (some worker) &&
    decide (r.status = .claimed)
  set r := { r with heartbeatAt := some now, updatedAt := now }
  key_set _ := rfl

/-- `MARK_SENT`. -/
def markSent (now : Time) (id : JobId) (worker : Option WorkerId) : Update Job where
  applies r := decide (r.id = id) && sqlEq r.workerId worker && decide (r.status = .claimed)
  set r := { r with status := .sent, sentAt := some now, updatedAt := now }
  key_set _ := rfl

/-- `SCHEDULE_RETRY`. -/
def scheduleRetry (now : Time) (attempt : Nat) (nextRetryAt : Time) (error : String) (id : JobId)
    (worker : Option WorkerId) : Update Job where
  applies r := decide (r.id = id) && sqlEq r.workerId worker && decide (r.status = .claimed)
  set r := { r with
    status := .pending, attemptCount := attempt, nextRetryAt := some nextRetryAt,
    sendAt := nextRetryAt, errorMessage := some error, workerId := none, claimedAt := none,
    heartbeatAt := none, updatedAt := now }
  key_set _ := rfl

/-- `DEFER_TO_NEXT_WINDOW`. -/
def deferToNextWindow (now : Time) (nextWindow : Time) (id : JobId)
    (worker : Option WorkerId) : Update Job where
  applies r := decide (r.id = id) && sqlEq r.workerId worker && decide (r.status = .claimed)
  set r := { r with
    status := .pending, sendAt := nextWindow, workerId := none, claimedAt := none,
    heartbeatAt := none, updatedAt := now }
  key_set _ := rfl

/-- `MARK_DEAD_LETTERED`: no condition on the status, and `IS NOT DISTINCT
FROM` on the owner. -/
def markDeadLettered (now : Time) (error : Option String) (id : JobId) (attemptCount : Nat)
    (expected : Option WorkerId) : Update Job where
  applies r := decide (r.id = id) && decide (r.workerId = expected)
  set r := { r with
    status := .deadLettered, errorMessage := error, attemptCount := attemptCount,
    failedAt := some now, workerId := none, claimedAt := none, heartbeatAt := none,
    updatedAt := now }
  key_set _ := rfl

/-- `INSERT_DEAD_LETTER`. -/
def insertDeadLetter (job : LetterFields) (attemptCount : Nat) (error : Option String) :
    DeadLetter :=
  ⟨job.id, job.recipient, job.channel, job.payload, attemptCount, error⟩

def staleClaimError : String := "worker died mid-processing (heartbeat timeout)"

/-- `RECOVER_STALE_CLAIMED`. -/
def recoverStaleClaimed (now : Time) (timeout : Time) : Update Job where
  applies r := decide (r.status = .claimed) &&
    r.heartbeatAt.any (fun t => decide (t < now - timeout))
  set r := { r with
    status := .pending, attemptCount := r.attemptCount + 1,
    errorMessage := some staleClaimError, workerId := none, claimedAt := none,
    heartbeatAt := none, updatedAt := now }
  key_set _ := rfl

/-- The outer `UPDATE` of `PROMOTE_DUE_JOBS`, on the ids the inner `SELECT` gave. -/
def promoteIds (now : Time) (ids : List JobId) : Update Job where
  applies r := decide (r.id ∈ ids)
  set r := { r with status := .queued, updatedAt := now }
  key_set _ := rfl

/-- The rows the inner `SELECT` of `PROMOTE_DUE_JOBS` ranges over. -/
def due (cfg : Settings) (now : Time) (locked : List JobId) (r : Job) : Bool :=
  decide (r.status = .pending) &&
    decide (r.sendAt ≤ now + cfg.schedulerLookaheadSeconds * second) && decide (r.id ∉ locked)

/-- The rank of a priority in the enum, for `ORDER BY priority ASC`. -/
def Priority.rank : Priority → Nat
  | .high => 0
  | .medium => 1
  | .low => 2

/-- `r` comes strictly before `r'` in `ORDER BY priority ASC, send_at ASC`. -/
def before (r r' : Job) : Bool :=
  decide (r.priority.rank < r'.priority.rank) ||
    (decide (r.priority = r'.priority) && decide (r.sendAt < r'.sendAt))

/-- `ids` is an answer to the inner `SELECT` of `PROMOTE_DUE_JOBS` while
others hold the row locks `locked`: `LIMIT` many of the due rows, and none left
out comes before one that is in. -/
def promotes (cfg : Settings) (db : Db) (locked ids : List JobId) : Bool :=
  let cands := db.jobs.rows.filter (due cfg db.now locked)
  decide (0 ≤ cfg.schedulerBatchSize) &&
    Table.picks cands cfg.schedulerBatchSize.toNat ids &&
    cands.all (fun r => decide (r.id ∈ ids) ||
      cands.all (fun r' => decide (r'.id ∉ ids) || !before r r'))

/-- The rows `REQUEUE_STALE_QUEUED` ranges over. -/
def staleQueued (cfg : Settings) (now : Time) (r : Job) : Bool :=
  decide (r.status = .queued) && decide (r.updatedAt < now - cfg.queuedRequeueSeconds * second)

/-- `ids` is an answer to `REQUEUE_STALE_QUEUED`. -/
def requeues (cfg : Settings) (db : Db) (ids : List JobId) : Bool :=
  decide (0 ≤ cfg.schedulerBatchSize) &&
    Table.picks (db.jobs.rows.filter (staleQueued cfg db.now)) cfg.schedulerBatchSize.toNat ids

/-- `ids` lists what `RECOVER_STALE_CLAIMED` matches, in some order. -/
def recovers (cfg : Settings) (db : Db) (ids : List JobId) : Bool :=
  decide (ids.Perm
    ((db.jobs.rows.filter (recoverStaleClaimed db.now cfg.heartbeatTimeout).applies).map Job.id))

namespace Db

def update (db : Db) (u : Update Job) : Db := { db with jobs := db.jobs.update u }

/-- The row of a job. -/
def row (db : Db) (id : JobId) : Option Job := db.jobs.find? id

/-- The `dead_letter_queue` rows of a job, oldest first. -/
def letters (db : Db) (id : JobId) : List DeadLetter :=
  db.deadLetterQueue.filter (fun d => decide (d.jobId = id))

/-- Run an `UPDATE … RETURNING id`; `none` when it returned no row. -/
def fetchrow (db : Db) (u : Update Job) : Option Db :=
  if db.jobs.hits u then some (db.update u) else none

/-- The rows of `ids`, read through `f`, in that order. -/
def returning {β : Type*} (db : Db) (f : Job → β) (ids : List JobId) : List β :=
  ids.filterMap (fun id => (db.row id).map f)

end Db

/-- How far the transaction of `dead_letter` got before it was rolled back. -/
inductive TxnPoint
  | begun | marked | inserted
deriving DecidableEq, Repr

/-- How a `dead_letter` call leaves its `async with` block. -/
inductive TxnResult
  | committed | notOwned | raised
deriving DecidableEq, Repr

/-- The transaction of `dead_letter`, run to its end or cut short at a point. -/
def deadLetterTxn (db : Db) (job : LetterFields) (error : Option String) (attemptCount : Nat)
    (expected : Option WorkerId) (cut : Option TxnPoint) : Db × TxnResult :=
  if cut = some .begun then (db, .raised)
  else
    match db.fetchrow (markDeadLettered db.now error job.id attemptCount expected) with
    | none => if cut = none then (db, .notOwned) else (db, .raised)
    | some marked =>
      if cut = some .marked then (db, .raised)
      else
        let inserted := { marked with
          deadLetterQueue :=
            marked.deadLetterQueue ++ [insertDeadLetter job attemptCount error] }
        if cut = some .inserted then (db, .raised) else (inserted, .committed)

end NotifyQueue
