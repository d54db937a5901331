import Mathlib.Algebra.GroupWithZero.Nat
import NotifyQueue.Model.Statements

/-!
# What the API shows

`GET /metrics` and `GET /jobs`: one `SELECT` each, and what is made of its rows.
`ORDER BY updated_at DESC LIMIT` leaves the order of rows of one `updated_at` to the
database, so which jobs `list_jobs` answers with is an argument again, and `recent`
says which answers there are.
-/

namespace NotifyQueue

open KeyedTable

/-- `JOB_STATUSES`. -/
def jobStatuses : List JobStatus := [.pending, .queued, .claimed, .sent, .failed, .deadLettered]

/-- How many rows have the status. -/
def Db.countOf (db : Db) (status : JobStatus) : Nat :=
  db.jobs.rows.countP (fun r => decide (r.status = status))

/-- `SELECT_METRICS`: a row for each status that some job has. -/
def selectMetrics (db : Db) : List (JobStatus × Nat) :=
  (jobStatuses.filter (fun status => decide (db.countOf status ≠ 0))).map
    (fun status => (status, db.countOf status))

/-- `metrics`: the counts start with a zero for each of `JOB_STATUSES`. -/
def metrics (db : Db) (status : JobStatus) : Nat := ((selectMetrics db).lookup status).getD 0

/-- What `list_jobs` shows of a job. -/
structure JobView where
  id : JobId
  recipient : String
  channel : Channel
  priority : Priority
  status : JobStatus
  attemptCount : Nat
  maxAttempts : Int
  sendAt : Time
  sentAt : Option Time
  errorMessage : Option String
  updatedAt : Time
deriving DecidableEq, Repr

/-- `_serialize_job`. -/
def serializeJob (r : Job) : JobView where
  id := r.id
  recipient := r.recipient
  channel := r.channel
  priority := r.priority
  status := r.status
  attemptCount := r.attemptCount
  maxAttempts := r.maxAttempts
  sendAt := r.sendAt
  sentAt := r.sentAt
  errorMessage := r.errorMessage
  updatedAt := r.updatedAt

/-- The rows that `SELECT_RECENT_JOBS` ranges over. -/
def listable (status : Option JobStatus) (r : Job) : Bool :=
  status.all (fun st => decide (r.status = st))

/-- `ids` is an answer to `SELECT_RECENT_JOBS`: `LIMIT` many of the rows, the
latest first, and none left out is later than one that is in. -/
def recent (db : Db) (status : Option JobStatus) (limit : Nat) (ids : List JobId) : Bool :=
  let cands := db.jobs.rows.filter (listable status)
  Table.picks cands limit ids &&
    decide ((db.returning Job.updatedAt ids).Pairwise (fun t u => u ≤ t)) &&
    cands.all (fun r => decide (r.id ∈ ids) ||
      cands.all (fun r' => decide (r'.id ∉ ids) || decide (r.updatedAt ≤ r'.updatedAt)))

/-- `list_jobs`, when the database answers with the rows of `ids`. -/
def listJobs (db : Db) (ids : List JobId) : List JobView := db.returning serializeJob ids

/-! ### The counts -/

theorem mem_jobStatuses (status : JobStatus) : status ∈ jobStatuses := by
  cases status <;> decide

theorem lookup_map_self {f : JobStatus → Nat} {status : JobStatus} (l : List JobStatus) :
    (l.map (fun st => (st, f st))).lookup status =
      if status ∈ l then some (f status) else none := by
  induction l with
  | nil => rfl
  | cons st l ih =>
    rw [List.map_cons, List.lookup_cons, ih]
    by_cases h : status = st
    · subst h
      simp
    · simp [h, beq_false_of_ne h]

/-- **A status that no job has counts zero.** -/
theorem metrics_eq (db : Db) (status : JobStatus) : metrics db status = db.countOf status := by
  rw [metrics, selectMetrics, lookup_map_self]
  split
  · rfl
  · rename_i h
    rw [List.mem_filter, not_and] at h
    have hzero := h (mem_jobStatuses status)
    simp only [ne_eq, decide_not, Bool.not_eq_true', decide_eq_false_iff_not, not_not] at hzero
    rw [hzero]
    rfl

theorem sum_countP (rows : List Job) :
    (jobStatuses.map (fun status => rows.countP (fun r => decide (r.status = status)))).sum =
      rows.length := by
  induction rows with
  | nil => rfl
  | cons r rows ih =>
    simp only [jobStatuses, List.map_cons, List.map_nil, List.sum_cons, List.sum_nil,
      List.countP_cons, List.length_cons] at ih ⊢
    cases r.status <;> simp <;> omega

theorem sum_metrics (db : Db) : (jobStatuses.map (metrics db)).sum = db.jobs.rows.length := by
  rw [funext (metrics_eq db)]
  exact sum_countP db.jobs.rows

/-! ### The list -/

theorem recent_picks {db : Db} {status : Option JobStatus} {limit : Nat} {ids : List JobId}
    (h : recent db status limit ids = true) :
    Table.picks (db.jobs.rows.filter (listable status)) limit ids = true := by
  simp only [recent, Bool.and_eq_true] at h
  exact h.1.1

theorem listable_iff {status : JobStatus} {r : Job} :
    listable (some status) r = true ↔ r.status = status := by
  simp [listable]

theorem mem_recent {db : Db} {status : JobStatus} {limit : Nat} {ids : List JobId} {id : JobId}
    (h : recent db (some status) limit ids = true) (hid : id ∈ ids) :
    ∃ r, db.row id = some r ∧ r.status = status := by
  obtain ⟨r, hr, hl⟩ := Table.find?_of_picks (recent_picks h) hid
  exact ⟨r, hr, listable_iff.mp hl⟩

/-- **The list is as long as the count**, up to its limit. -/
theorem length_recent {db : Db} {status : JobStatus} {limit : Nat} {ids : List JobId}
    (h : recent db (some status) limit ids = true) :
    ids.length = min limit (db.countOf status) := by
  have hp := recent_picks h
  simp only [Table.picks, Bool.and_eq_true, beq_iff_eq] at hp
  rw [hp.2, Db.countOf, List.countP_eq_length_filter]
  rfl

end NotifyQueue
