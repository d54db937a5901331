import NotifyQueue.Model.System

/-!
# Whole calls

A call of `claim_next_job`, `promote_due_jobs` or `requeue_stale_queued_jobs`
with no step of anybody else in between.  The statements are those of
`workerNext` and `schedulerNext`, one after another; nobody else is there to
hold a row lock.  `none` is an exception, or an answer `ids` that the database
does not give.

`Shared.wait` is the time that passes between two calls.

A call of `fire_webhook` is given by what the HTTP client does at each attempt,
and its inserts succeed.  The exceptions that it does not catch end it.

`heartbeatLoop` is `heartbeat_loop` in time: an iteration takes no time, the
wait between two of them takes the interval, and the database is down at given
instants.
-/

namespace NotifyQueue

/-- `claim_next_job` with the queues of `rest` still to try. -/
def claimFrom (cfg : Settings) (w : WorkerId) :
    List Priority → Shared → Option (Shared × Option JobId)
  | [], sh => some (sh, none)
  | p :: rest, sh =>
    match sh.redis.zpopmin p with
    | none => claimFrom cfg w rest sh
    | some (id, popped) =>
      -- Redis answers a non-positive `EX` with an error
      if cfg.jobLockTtlSeconds ≤ 0 then none
      else
        match popped.setLock id w cfg.jobLockTtlSeconds with
        | none => claimFrom cfg w rest { sh with redis := popped }
        | some locked =>
          match sh.db.fetchrow (claimQueuedJob sh.db.now w id) with
          | none => claimFrom cfg w rest { sh with redis := locked.deleteLock id }
          | some db => some (⟨db, locked⟩, some id)

/-- `claim_next_job`. -/
def claimNextJob (cfg : Settings) (w : WorkerId) (sh : Shared) : Option (Shared × Option JobId) :=
  claimFrom cfg w priorityOrder sh

/-- `promote_due_jobs`, where the inner `SELECT` gives `ids`. -/
def promoteDueJobs (cfg : Settings) (ids : List JobId) (sh : Shared)
    (score : Scoring := priorityScore) : Option (Shared × List JobId) :=
  if promotes cfg sh.db [] ids then
    let db := sh.db.update (promoteIds sh.db.now ids)
    some (⟨db, if ids.isEmpty then sh.redis
      else sh.redis.enqueue (db.returning Job.queueRow ids) score⟩, ids)
  else none

/-- `requeue_stale_queued_jobs`, where the `SELECT` gives `ids`. -/
def requeueStaleQueuedJobs (cfg : Settings) (ids : List JobId) (sh : Shared) :
    Option (Shared × List JobId) :=
  if requeues cfg sh.db ids then
    some ({ sh with redis := if ids.isEmpty then sh.redis
      else sh.redis.enqueue (sh.db.returning Job.queueRow ids) }, ids)
  else none

/-- The clocks of the database and of Redis at `t` and `u`. -/
def Shared.setClocks (sh : Shared) (t u : Time) : Shared :=
  ⟨{ sh.db with now := t }, { sh.redis with now := u }⟩

/-- The clocks go on to `t` and `u`; the one of the database does not go back. -/
def Shared.wait (sh : Shared) (t u : Time) : Option Shared :=
  if sh.db.now ≤ t then some (sh.setClocks t u) else none

/-! ### `fire_webhook` -/

/-- How `client.post` ends. -/
inductive Reply
  | response (status : Nat)
  /-- By an `httpx.HTTPError`. -/
  | httpError
  /-- By an exception of another class, such as `httpx.InvalidURL`. -/
  | otherError
deriving DecidableEq

/-- `http_status` after the `try` statement. -/
def Reply.httpStatus : Reply → Option Nat
  | .response status => some status
  | .httpError | .otherError => none

/-- `http_status is not None and http_status < 500`. -/
def Reply.answered (r : Reply) : Bool := r.httpStatus.any (fun status => decide (status < 500))

/-- `asyncio.sleep(2**attempt)` returns: it adds the delay to a `float`, and no
`float` is as large as `2**1024`. -/
def sleeps (attempt : Nat) : Bool := decide (attempt < 1024)

/-- What a call of `fire_webhook` has done when it ends. -/
structure WebhookCall where
  db : Db
  /-- How often `client.post` was called. -/
  posts : Nat
  /-- It ends by returning, not by an exception. -/
  returned : Bool

/-- The loop of `fire_webhook`, over the attempts still to come. -/
def webhookLoop (n : Notice) (url : String) (maxAttempts : Nat) (reply : Nat → Reply) :
    List Nat → Db → WebhookCall
  | [], db => ⟨db, 0, true⟩
  | attempt :: rest, db =>
    if reply attempt = .otherError then ⟨db, 1, false⟩
    else
      let logged := { db with webhookLog := db.webhookLog ++
        [⟨n.jobId, url, n.status, (reply attempt).httpStatus, attempt⟩] }
      if (reply attempt).answered then ⟨logged, 1, true⟩
      else if attempt < maxAttempts ∧ ¬ sleeps attempt then ⟨logged, 1, false⟩
      else
        let call := webhookLoop n url maxAttempts reply rest logged
        ⟨call.db, call.posts + 1, call.returned⟩

/-- `fire_webhook`; `reply` says how each attempt ends. -/
def fireWebhookCall (maxAttempts : Nat) (n : Notice) (reply : Nat → Reply) (db : Db) :
    WebhookCall :=
  match n.callbackUrl with
  | none => ⟨db, 0, true⟩
  | some url =>
    if url = "" then ⟨db, 0, true⟩
    else webhookLoop n url maxAttempts reply (List.range' 1 maxAttempts) db

/-! ### `heartbeat_loop` -/

/-- A delivery with a heartbeat. -/
structure Delivery where
  id : JobId
  worker : WorkerId
  start : Time
  /-- When `stop` is set. -/
  stop : Time
  /-- The instants at which a write raises. -/
  down : Time → Bool

/-- A heartbeat task between two iterations. -/
structure Heart where
  db : Db
  /-- When the next iteration begins; `none` when the task has ended. -/
  next : Option Time
  /-- When it has tried to write, latest first. -/
  attempts : List Time

def Delivery.heart (d : Delivery) (db : Db) : Heart := ⟨db, some d.start, []⟩

/-- One iteration of the loop. -/
def heartbeatStep (interval : Time) (d : Delivery) (h : Heart) : Heart :=
  match h.next with
  | none => h
  | some t =>
    if d.stop ≤ t then { h with next := none }
    else
      let db := { h.db with now := t }
      if d.down t then ⟨db, none, t :: h.attempts⟩
      else ⟨db.update (updateHeartbeat t d.id d.worker), some (t + interval), t :: h.attempts⟩

/-- `heartbeat_loop` up to an iteration. -/
def heartbeatLoop (interval : Time) (d : Delivery) : Nat → Heart → Heart
  | 0, h => h
  | n + 1, h => heartbeatStep interval d (heartbeatLoop interval d n h)

end NotifyQueue
