import NotifyQueue.Model.Client
import NotifyQueue.Model.Views

/-!
# Replaying dead letters

`POST /jobs/{id}/retry`, one `await` at a time, and the panel of dead letters of
`app.js` over it.  `RETRY_DEAD_LETTERED_JOB` commits by itself; only when it has
matched no row does the endpoint look whether there is one, in a statement of
its own, so anything may happen between the two.

`retryJob` posts with `request`, as the form does: the request is sent again
when `fetch` fails.  `retryAll` asks for the dead-lettered jobs and calls
`retryJob` on all of them at once.
-/

namespace NotifyQueue

open KeyedTable

/-- Where a request is in `retry_dead_lettered_job`. -/
inductive RetryPc
  | updating
  | responding
  | checking
  | requeued
  | notFound
  | notDeadLettered
  /-- An exception, with nothing changed. -/
  | failed
  /-- An exception after the update. -/
  | lost
deriving DecidableEq, Repr

/-- The status of the answer, and its `status` or its `detail`. -/
def RetryPc.answer? : RetryPc → Option (Nat × String)
  | .requeued => some (200, "pending")
  | .notFound => some (404, "job not found")
  | .notDeadLettered => some (409, "only dead_lettered jobs can be retried")
  | .failed | .lost => some (500, "Internal Server Error")
  | .updating | .responding | .checking => none

structure RetryRequest where
  job : JobId
  pc : RetryPc
deriving DecidableEq, Repr

/-- `retry_dead_lettered_job` over one `await`. -/
def retryNext (s : State) (id : JobId) : RetryPc → Option (State × RetryPc × List Event)
  | .updating =>
    match s.db.fetchrow (retryDeadLetteredJob s.db.now id) with
    | some db => some (s.setShared { s.toShared with db := db }, .responding, [.replayed id])
    | none => some (s, .checking, [])
  | .responding => some (s, .requeued, [])
  | .checking => some (s, if (s.row id).isSome then .notDeadLettered else .notFound, [])
  | .requeued | .notFound | .notDeadLettered | .failed | .lost => none

/-- An exception, or the end of the process, at an `await`. -/
def retryAbort : RetryPc → Option RetryPc
  | .updating | .checking => some .failed
  | .responding => some .lost
  | .requeued | .notFound | .notDeadLettered | .failed | .lost => none

/-- One request that `fetch` has sent; `arrived` names the request it has become. -/
inductive RetryAttempt
  | sending
  | lost
  | arrived (n : Nat)
deriving DecidableEq, Repr

/-- What a call of `retryJob` ends with. -/
inductive ClickResult
  | returned (ok : Bool)
  /-- `request` has thrown. -/
  | thrown
deriving DecidableEq, Repr

/-- A call of `retryJob`: its attempts in their order, and its end. -/
structure Click where
  job : JobId
  attempts : List RetryAttempt
  result : Option ClickResult := none
deriving DecidableEq, Repr

abbrev ClickId := Nat

namespace Click

/-- The call, with its first request on the way. -/
def start (id : JobId) : Click := { job := id, attempts := [.sending] }

/-- `fetch` has failed: `request` throws or sends the request again. -/
def fetchFailed (click : Click) : Click :=
  if click.attempts.length - 1 ≥ Submission.retries then { click with result := some .thrown }
  else { click with attempts := click.attempts ++ [.sending] }

def setAttempt (click : Click) (k : Nat) (attempt : RetryAttempt) : Click :=
  { click with attempts := click.attempts.set k attempt }

end Click

/-- Requests and calls are numbered in the order in which they come up. -/
structure Panel where
  core : State
  requests : List RetryRequest
  clicks : List Click

namespace Panel

/-- A request reaches the API. -/
def receive (p : Panel) (id : JobId) : Panel :=
  { p with requests := p.requests ++ [⟨id, .updating⟩] }

/-- `retryJob` is called on each of the jobs. -/
def call (p : Panel) (ids : List JobId) : Panel :=
  { p with clicks := p.clicks ++ ids.map .start }

def setRequest (p : Panel) (n : Nat) (rq : RetryRequest) : Panel :=
  { p with requests := p.requests.set n rq }

def setClick (p : Panel) (c : ClickId) (click : Click) : Panel :=
  { p with clicks := p.clicks.set c click }

/-- Whether the answer to the latest attempt has the status 200. -/
def answer? (p : Panel) (click : Click) : Option Bool :=
  match click.attempts.getLast? with
  | some (.arrived n) =>
    (p.requests[n]?).bind (fun rq => rq.pc.answer?.map (fun (status, _) => decide (status = 200)))
  | _ => none

def result? (p : Panel) (c : ClickId) : Option ClickResult := (p.clicks[c]?).bind Click.result

/-- The two numbers of the toast of `retryAll`, for its calls; `none` as long as
not all of them have returned, and if one has thrown. -/
def toast? (p : Panel) (calls : List ClickId) : Option (Nat × Nat) :=
  if calls.all (fun c => p.result? c = some (.returned true) ∨
      p.result? c = some (.returned false)) then
    some (calls.countP (fun c => p.result? c = some (.returned true)), calls.length)
  else none

end Panel

inductive PanelAction
  /-- A step of the system that is no `POST /jobs/{id}/retry`. -/
  | core (a : Action)
  /-- A request of another client. -/
  | request (id : JobId)
  | next (n : Nat)
  | abort (n : Nat)
  | click (id : JobId)
  /-- `retryAll`, when the list of dead-lettered jobs is that of `ids`. -/
  | clickAll (ids : List JobId)
  /-- Attempt `k` of `c` reaches the API. -/
  | arrive (c : ClickId) (k : Nat)
  | lose (c : ClickId) (k : Nat)
  | fetchFails (c : ClickId)
  /-- The response to the latest attempt comes in. -/
  | respond (c : ClickId)

def Action.isRetry : Action → Bool
  | .retryJob _ => true
  | _ => false

/-- The `limit` of the list that `retryAll` asks for. -/
def retryAllLimit : Nat := 200

def panelStep (cfg : Settings) (p : Panel) : PanelAction → Option (Panel × List Event)
  | .core a =>
    if a.isRetry then none
    else (step cfg p.core a).map (fun (core, es) => ({ p with core := core }, es))
  | .request id => some (p.receive id, [])
  | .next n =>
    (p.requests[n]?).bind (fun rq =>
      (retryNext p.core rq.job rq.pc).map (fun (core, pc, es) =>
        ({ p with core := core }.setRequest n ⟨rq.job, pc⟩, es)))
  | .abort n =>
    (p.requests[n]?).bind (fun rq =>
      (retryAbort rq.pc).map (fun pc => (p.setRequest n ⟨rq.job, pc⟩, [])))
  | .click id => some (p.call [id], [])
  | .clickAll ids =>
    if recent p.core.db (some .deadLettered) retryAllLimit ids then
      some (p.call ids, [])
    else none
  | .arrive c k =>
    (p.clicks[c]?).bind (fun click =>
      if click.attempts[k]? = some .sending then
        some ((p.receive click.job).setClick c
          (click.setAttempt k (.arrived p.requests.length)), [])
      else none)
  | .lose c k =>
    (p.clicks[c]?).bind (fun click =>
      if click.attempts[k]? = some .sending then
        some (p.setClick c (click.setAttempt k .lost), [])
      else none)
  | .fetchFails c =>
    (p.clicks[c]?).bind (fun click =>
      if click.result.isSome then none else some (p.setClick c click.fetchFailed, []))
  | .respond c =>
    (p.clicks[c]?).bind (fun click =>
      if click.result.isSome then none
      else
        (p.answer? click).map (fun ok =>
          (p.setClick c { click with result := some (.returned ok) }, [])))

/-- Empty tables, no request and no call yet. -/
structure PanelInitial (p : Panel) : Prop where
  core : Initial p.core
  requests : p.requests = []
  clicks : p.clicks = []

def panel (cfg : Settings) : Lts.System Panel PanelAction Event := ⟨PanelInitial, panelStep cfg⟩

/-- Every step. -/
def anyPanelStep (_ : Panel) (_ : PanelAction) : Bool := true

def Panel.empty : Panel := ⟨State.empty, [], []⟩

theorem panelInitial_empty : PanelInitial Panel.empty := ⟨initial_empty, rfl, rfl⟩

end NotifyQueue
