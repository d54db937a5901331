import Mathlib.Data.Rat.Floor
import Mathlib.Logic.Function.Basic
import NotifyQueue.Lib.Rounding
import NotifyQueue.Lib.SortedSet
import NotifyQueue.Model.Data

/-!
# The Redis side

The three sorted sets, the job locks and the rate-limit counters, with the
clock their expiry is measured on.  A key whose time is over counts as missing
when it is looked at; at the very instant it expires it is still there.  A counter's
key `ratelimit:{recipient}:{YYYYMMDDHH}` is the pair of the recipient and the number
of the hour.

The scores are the doubles that `priority_score` computes, as rational numbers.
`_enqueue` takes the scores as an argument, so that it can also be looked at with
those of exact arithmetic.
-/

namespace NotifyQueue

/-- `job:lock:{id}`. -/
structure Lock where
  holder : WorkerId
  expiresAt : Time

/-- `ratelimit:{recipient}:{hour}`. -/
structure WindowKey where
  recipient : String
  hour : Int
deriving DecidableEq

structure Counter where
  value : Int
  expiresAt : Option Time

structure Redis where
  now : Time
  queue : Priority → SortedSet ℚ JobId
  lock : JobId → Option Lock
  counter : WindowKey → Option Counter

/-! ### Scores and windows -/

/-- `PRIORITY_WEIGHTS`, in seconds. -/
def priorityWeight : Priority → Int
  | .high => 0
  | .medium => 10000000000
  | .low => 20000000000

/-- What gives a job of some priority and `send_at` its score. -/
abbrev Scoring := Priority → Time → ℚ

/-- A `float` operation with the exact result `x`.  The exponents of scores are far
from their bounds. -/
def double (x : ℚ) : ℚ := Rounding.toBits 53 x

/-- `datetime.timestamp`, which divides the microseconds by `10 ** 6`. -/
def timestamp (t : Time) : ℚ := double (t / second)

/-- `priority_score`. -/
def priorityScore : Scoring := fun priority sendAt =>
  double (priorityWeight priority + timestamp sendAt)

/-- `priority_score` in exact arithmetic. -/
def exactScore : Scoring := fun priority sendAt => priorityWeight priority + sendAt / second

def windowTtlSeconds : Int := 7200

/-- `window_key`. -/
def windowKey (recipient : String) (now : Time) : WindowKey := ⟨recipient, now / hour⟩

/-- `seconds_until_next_window`: the whole seconds to the next hour, and one
more; `none` when that hour is past the last `datetime`. -/
def secondsUntilNextWindow (now : Time) : Option Int :=
  (datetime? ((now / hour + 1) * hour)).map (fun next => (next - now) / second + 1)

namespace Redis

/-! ### Locks -/

/-- The lock of a job, unless it has expired. -/
def lock? (rd : Redis) (id : JobId) : Option Lock :=
  (rd.lock id).filter (fun l => decide (rd.now ≤ l.expiresAt))

/-- `SET job:lock:{id} {worker} NX EX {ttl}`; `none` when the lock is held. -/
def setLock (rd : Redis) (id : JobId) (worker : WorkerId) (ttl : Int) : Option Redis :=
  match rd.lock? id with
  | some _ => none
  | none => some { rd with
      lock := Function.update rd.lock id (some ⟨worker, rd.now + ttl * second⟩) }

/-- `DEL job:lock:{id}`. -/
def deleteLock (rd : Redis) (id : JobId) : Redis :=
  { rd with lock := Function.update rd.lock id none }

/-! ### Queues -/

/-- `ZPOPMIN queue:{priority} 1`. -/
def zpopmin (rd : Redis) (p : Priority) : Option (JobId × Redis) :=
  match (rd.queue p).popMin with
  | none => none
  | some (id, z) => some (id, { rd with queue := Function.update rd.queue p z })

/-- `ZADD queue:{priority} {id: score}`. -/
def zadd (rd : Redis) (row : QueueRow) (score : Scoring := priorityScore) : Redis :=
  { rd with
    queue := Function.update rd.queue row.priority
      ((rd.queue row.priority).add row.id (score row.priority row.sendAt)) }

/-- `_enqueue`: the pipeline runs as one `MULTI`. -/
def enqueue (rd : Redis) (rows : List QueueRow) (score : Scoring := priorityScore) : Redis :=
  rows.foldl (fun rd row => rd.zadd row score) rd

/-! ### Counters -/

/-- The counter under a key, unless it has expired. -/
def counter? (rd : Redis) (key : WindowKey) : Option Counter :=
  (rd.counter key).filter (fun c => c.expiresAt.all (fun t => decide (rd.now ≤ t)))

/-- The script `INCR_WITH_TTL`: the new value, and the store after it. -/
def incrWithTtl (rd : Redis) (key : WindowKey) : Int × Redis :=
  let c := (rd.counter? key).getD ⟨0, none⟩
  let current := c.value + 1
  let expiresAt := if current = 1 then some (rd.now + windowTtlSeconds * second) else c.expiresAt
  (current, { rd with counter := Function.update rd.counter key (some ⟨current, expiresAt⟩) })

/-- `DECR`: a missing key becomes `-1`, without expiry. -/
def decr (rd : Redis) (key : WindowKey) : Redis :=
  let c := (rd.counter? key).getD ⟨0, none⟩
  { rd with counter := Function.update rd.counter key (some ⟨c.value - 1, c.expiresAt⟩) }

/-! ### When a command succeeds -/

theorem setLock_eq_some {rd rd' : Redis} {id : JobId} {w : WorkerId} {ttl : Int} :
    rd.setLock id w ttl = some rd' ↔ rd.lock? id = none ∧ rd' = { rd with
      lock := Function.update rd.lock id (some ⟨w, rd.now + ttl * second⟩) } := by
  unfold setLock
  cases rd.lock? id with
  | some l => simp only [reduceCtorEq, false_and]
  | none => simp only [Option.some.injEq, true_and, eq_comm]

theorem setLock_eq_none {rd : Redis} {id : JobId} {w : WorkerId} {ttl : Int} :
    rd.setLock id w ttl = none ↔ rd.lock? id ≠ none := by
  unfold setLock
  cases rd.lock? id <;> simp

theorem zpopmin_eq_some {rd rd' : Redis} {p : Priority} {id : JobId} :
    rd.zpopmin p = some (id, rd') ↔ ∃ z, (rd.queue p).popMin = some (id, z) ∧
      rd' = { rd with queue := Function.update rd.queue p z } := by
  unfold zpopmin
  cases (rd.queue p).popMin with
  | none => simp only [reduceCtorEq, false_and, exists_false]
  | some x =>
    obtain ⟨j, z⟩ := x
    constructor
    · rintro ⟨⟩
      exact ⟨z, rfl, rfl⟩
    · rintro ⟨z', hz, rfl⟩
      cases hz
      rfl

/-! ### What a command leaves alone -/

theorem setLock_frame {rd rd' : Redis} {id : JobId} {w : WorkerId} {ttl : Int}
    (h : rd.setLock id w ttl = some rd') : rd' = { rd with lock := rd'.lock } := by
  obtain ⟨-, rfl⟩ := setLock_eq_some.mp h
  rfl

theorem zpopmin_frame {rd rd' : Redis} {p : Priority} {id : JobId}
    (h : rd.zpopmin p = some (id, rd')) : rd' = { rd with queue := rd'.queue } := by
  obtain ⟨z, -, rfl⟩ := zpopmin_eq_some.mp h
  rfl

theorem enqueue_frame {score : Scoring} (rows : List QueueRow) (rd : Redis) :
    rd.enqueue rows score = { rd with queue := (rd.enqueue rows score).queue } := by
  induction rows generalizing rd with
  | nil => rfl
  | cons row rows ih => exact ih (rd.zadd row score)

/-! ### What reaches the queues -/

theorem mem_zadd {rd : Redis} {row : QueueRow} {score : Scoring} {p : Priority} {id : JobId} :
    id ∈ (rd.zadd row score).queue p ↔ (row.priority = p ∧ row.id = id) ∨ id ∈ rd.queue p := by
  unfold zadd
  by_cases hp : p = row.priority
  · subst hp
    simp only [Function.update_self, SortedSet.mem_add, true_and, eq_comm]
  · simp only [Function.update_of_ne hp, Ne.symm hp, false_and, false_or]

/-- **The pipeline adds every row of the batch and drops nothing.** -/
theorem mem_enqueue {score : Scoring} {p : Priority} {id : JobId} (rows : List QueueRow)
    (rd : Redis) : id ∈ (rd.enqueue rows score).queue p ↔
      (∃ row ∈ rows, row.priority = p ∧ row.id = id) ∨ id ∈ rd.queue p := by
  induction rows generalizing rd with
  | nil => simp [enqueue]
  | cons row rows ih =>
    have h := ih (rd.zadd row score)
    rw [show (rd.zadd row score).enqueue rows score = rd.enqueue (row :: rows) score from rfl] at h
    rw [h, mem_zadd, ← or_assoc, or_comm (a := ∃ r ∈ rows, _)]
    simp only [List.mem_cons, exists_eq_or_imp]

/-- **A pop takes one member from one queue.** -/
theorem mem_zpopmin {rd rd' : Redis} {p q : Priority} {id j : JobId}
    (h : rd.zpopmin p = some (id, rd')) (hj : j ∈ rd.queue q) : j = id ∨ j ∈ rd'.queue q := by
  obtain ⟨z, hz, rfl⟩ := zpopmin_eq_some.mp h
  by_cases hq : q = p
  · subst hq
    simp only [Function.update_self]
    exact (SortedSet.mem_of_popMin hz).mp hj
  · simp only [Function.update_of_ne hq]
    exact Or.inr hj

end Redis

end NotifyQueue
