import NotifyQueue.Lib.Run
import NotifyQueue.Model.Process

/-!
# The whole system

Any number of workers and schedulers over one database and one Redis, with the
API and the clocks.  A step is a step of one of them; nothing restricts the
order.  `redisFault` replaces the contents of Redis by anything at all, so a
run with faults covers lost data, duplicate queue entries and locks granted
twice.  The clocks may be set to anything; a statement that needs them to go
forward says so.

`outcome?` names the outcome writes: the step in which a worker issues
`MARK_SENT`, `SCHEDULE_RETRY`, `DEFER_TO_NEXT_WINDOW` or the transaction of
`MARK_DEAD_LETTERED`, with the snapshot it issues it from.
-/

namespace NotifyQueue

open KeyedTable

structure State extends Shared where
  workers : WorkerId → Worker
  schedulers : SchedulerId → SchedulerPc

namespace State

def setShared (s : State) (sh : Shared) : State := { s with toShared := sh }

def setWorker (s : State) (w : WorkerId) (wk : Worker) : State :=
  { s with workers := Function.update s.workers w wk }

def setScheduler (s : State) (k : SchedulerId) (pc : SchedulerPc) : State :=
  { s with schedulers := Function.update s.schedulers k pc }

/-- The row of a job. -/
def row (s : State) (id : JobId) : Option Job := s.db.row id

/-- The dead letters of a job, oldest first. -/
def letters (s : State) (id : JobId) : List DeadLetter := s.db.letters id

@[simp] theorem setWorker_workers (s : State) (w : WorkerId) (wk : Worker) :
    (s.setWorker w wk).workers = Function.update s.workers w wk := rfl
@[simp] theorem setScheduler_schedulers (s : State) (k : SchedulerId) (pc : SchedulerPc) :
    (s.setScheduler k pc).schedulers = Function.update s.schedulers k pc := rfl

end State

inductive Action
  | worker (w : WorkerId) (c : WorkerChoice)
  | scheduler (k : SchedulerId) (c : SchedulerChoice)
  /-- `POST /jobs`, committed. -/
  | createJob (id : JobId) (body : JobCreate)
  /-- `POST /jobs/{id}/retry`. -/
  | retryJob (id : JobId)
  | tick (db redis : Time)
  | redisFault (queue : Priority → SortedSet ℚ JobId) (lock : JobId → Option Lock)
      (counter : WindowKey → Option Counter)

def step (cfg : Settings) (s : State) : Action → Option (State × List Event)
  | .worker w c =>
    (workerStep cfg w s.toShared (s.workers w) c).map
      (fun (sh, wk, es) => ((s.setShared sh).setWorker w wk, es))
  | .scheduler k c =>
    (schedulerStep cfg s.toShared (s.schedulers k) c).map
      (fun (sh, pc, es) => ((s.setShared sh).setScheduler k pc, es))
  | .createJob id body =>
    (s.db.jobs.insert? (insertJob cfg s.db.now id body)).map
      (fun jobs => (s.setShared { s.toShared with db := { s.db with jobs := jobs } },
        [.created id]))
  | .retryJob id =>
    match s.db.fetchrow (retryDeadLetteredJob s.db.now id) with
    | none => some (s, [])
    | some db => some (s.setShared { s.toShared with db := db }, [.replayed id])
  | .tick t u =>
    some (s.setShared ⟨{ s.db with now := t }, { s.redis with now := u }⟩, [])
  | .redisFault queue lock counter =>
    some (s.setShared { s.toShared with redis := ⟨s.redis.now, queue, lock, counter⟩ }, [])

/-- Empty tables, every process about to start; Redis may hold anything. -/
structure Initial (s : State) : Prop where
  jobs : s.db.jobs = Table.empty
  letters : s.db.deadLetterQueue = []
  workers : s.workers = fun _ => Worker.start
  schedulers : s.schedulers = fun _ => .promoting

def system (cfg : Settings) : Lts.System State Action Event := ⟨Initial, step cfg⟩

/-- Every step. -/
def always (_ : State) (_ : Action) : Bool := true

/-! ### Outcome writes -/

/-- The snapshot a worker is about to write an outcome from. -/
def WorkerPc.outcome? : WorkerPc → Option Job
  | .deferring job _ | .succeeding job | .failing job _ => some job
  | _ => none

/-- The worker that issues an outcome write in this step, with its snapshot. -/
def outcome? (s : State) : Action → Option (WorkerId × Job)
  | .worker w (.run _) => ((s.workers w).pc.outcome?).map (fun job => (w, job))
  | _ => none

/-! ### An empty system -/

/-- Empty tables and an empty Redis at time `0`. -/
def State.empty : State where
  db := ⟨0, Table.empty, [], []⟩
  redis := ⟨0, fun _ => SortedSet.empty, fun _ => none, fun _ => none⟩
  workers := fun _ => Worker.start
  schedulers := fun _ => .promoting

theorem initial_empty : Initial State.empty := ⟨rfl, rfl, rfl, rfl⟩

/-! ### Writing runs down -/

def work (w : WorkerId) (env : Env := {}) : Action := .worker w (.run env)

def schedule (k : SchedulerId) (env : Env := {}) : Action := .scheduler k (.run env)

/-- Set both clocks. -/
def clock (t : Time) : Action := .tick t t

/-- A due job of medium priority without a webhook. -/
def plainJob : JobCreate := ⟨"user@example.com", .email, "x", 0, .medium, none⟩

/-- `promote_due_jobs` and `_enqueue`, for one job. -/
def promotion (k : SchedulerId) (id : JobId) : List Action :=
  [schedule k { batch := [id] }, schedule k]

/-- `claim_next_job` on a job of medium priority: two pops, the lock, the claim. -/
def claim (w : WorkerId) : List Action := [work w, work w, work w, work w]

end NotifyQueue
