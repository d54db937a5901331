import NotifyQueue.Lib.UniqueIndex
import NotifyQueue.Model.System

/-!
# `POST /jobs`, one await at a time

`create_job` inserts the job row and then the idempotency key, in one
transaction; on a unique violation it rolls back and looks up the job the key
belongs to.  A `Site` is the system with any number of such requests in
progress, over `job_idempotency` as a unique index.

What a transaction has inserted nobody else sees before its commit, so the job
row reaches `jobs` with the commit, as the `createJob` step of the system.  Its
`updated_at` is the clock of the commit, where `NOW()` is that of the begin of the
transaction; until the job is promoted only `GET /jobs` reads it, which orders its
list by it and shows it.  An insert of a key that another transaction has inserted
waits for the end of that transaction.  `gen_random_uuid` gives no id twice.
-/

namespace NotifyQueue

abbrev RequestId := Nat

/-- `models.JobCreate`, the body of a request. -/
structure JobBody where
  recipient : String
  channel : Channel
  payload : Payload
  sendAt : Option Time := none
  delaySeconds : Option Int := none
  priority : Priority := .medium
  callbackUrl : Option String := none
  idempotencyKey : Option String := none

namespace JobBody

/-- The constraints on the fields, and `_mutually_exclusive_schedule`. -/
def valid (body : JobBody) : Bool :=
  decide (body.recipient ≠ "") &&
    body.delaySeconds.all (fun d => decide (0 ≤ d) && decide (d ≤ 366 * 24 * 3600)) &&
    body.idempotencyKey.all (fun key => decide (key ≠ "")) &&
    !(body.sendAt.isSome && body.delaySeconds.isSome)

/-- `resolved_send_at`; `none` is an `OverflowError`. -/
def resolvedSendAt (body : JobBody) (now : Time) : Option Time :=
  match body.sendAt, body.delaySeconds with
  | some t, _ => some t
  | none, some d => datetime? (now + d * second)
  | none, none => some now

/-- `if body.idempotency_key`: the key to insert, if any. -/
def key (body : JobBody) : Option String := body.idempotencyKey.filter (fun key => key ≠ "")

/-- The columns of `INSERT_JOB`. -/
def columns (body : JobBody) (sendAt : Time) : JobCreate :=
  ⟨body.recipient, body.channel, body.payload, sendAt, body.priority, body.callbackUrl⟩

end JobBody

/-- Where a request is in `create_job`, with its local variables. -/
inductive RequestPc
  | inserting (sendAt : Time)
  | keying (id : JobId) (sendAt : Time) (key : String)
  | committing (id : JobId) (sendAt : Time)
  | responding (id : JobId)
  | rollingBack (key : String)
  | looking (key : String)
  /-- Answered with 201. -/
  | created (id : JobId)
  /-- Answered with 409. -/
  | conflict (existing : Option JobId)
  /-- Answered with 422. -/
  | rejected
  /-- An exception, with nothing committed. -/
  | failed
  /-- An exception after the commit. -/
  | lost (id : JobId)

structure Request where
  body : JobBody
  pc : RequestPc

structure Site where
  core : State
  /-- `job_idempotency`. -/
  idempotency : UniqueIndex String RequestId JobId
  /-- The request that each id has been drawn for. -/
  drawnBy : JobId → Option RequestId
  requests : RequestId → Option Request

namespace Site

def setRequest (s : Site) (q : RequestId) (rq : Request) : Site :=
  { s with requests := Function.update s.requests q (some rq) }

end Site

/-- A request arrives at the time `now`: it is validated, and `send_at` is resolved. -/
def receive (body : JobBody) (now : Time) : RequestPc :=
  if body.valid then
    match body.resolvedSendAt now with
    | none => .failed
    | some sendAt => .inserting sendAt
  else .rejected

/-- `create_job` over one `await`; `drawn` is the id `INSERT_JOB` gets. -/
def requestNext (cfg : Settings) (s : Site) (q : RequestId) (body : JobBody) (drawn : JobId) :
    RequestPc → Option (Site × List Event)
  | .inserting sendAt =>
    if (s.drawnBy drawn).isSome then none
    else
      some ({ s with drawnBy := Function.update s.drawnBy drawn (some q) }.setRequest q ⟨body,
        match body.key with
        | none => .committing drawn sendAt
        | some key => .keying drawn sendAt key⟩, [])
  | .keying id sendAt key =>
    match s.idempotency.insert q key id with
    | .done ix => some ({ s with idempotency := ix }.setRequest q ⟨body, .committing id sendAt⟩, [])
    | .violation => some (s.setRequest q ⟨body, .rollingBack key⟩, [])
    | .waits => none
  | .committing id sendAt =>
    (step cfg s.core (.createJob id (body.columns sendAt))).map (fun (core, es) =>
      ({ s with core := core, idempotency := s.idempotency.commit q }.setRequest q
        ⟨body, .responding id⟩, es))
  | .responding id => some (s.setRequest q ⟨body, .created id⟩, [])
  | .rollingBack key =>
    some ({ s with idempotency := s.idempotency.abort q }.setRequest q ⟨body, .looking key⟩, [])
  | .looking key => some (s.setRequest q ⟨body, .conflict (s.idempotency.committed key)⟩, [])
  | .created _ | .conflict _ | .rejected | .failed | .lost _ => none

/-- An exception, or the end of the process, at an `await` of `create_job`: a
transaction that has not committed is rolled back. -/
def requestAbort (s : Site) (q : RequestId) (body : JobBody) : RequestPc → Option Site
  | .inserting _ | .keying _ _ _ | .committing _ _ | .rollingBack _ | .looking _ =>
    some ({ s with idempotency := s.idempotency.abort q }.setRequest q ⟨body, .failed⟩)
  | .responding id => some (s.setRequest q ⟨body, .lost id⟩)
  | .created _ | .conflict _ | .rejected | .failed | .lost _ => none

inductive SiteAction
  /-- A step of the system that is no `POST /jobs`. -/
  | core (a : Action)
  | post (q : RequestId) (body : JobBody) (now : Time)
  | next (q : RequestId) (drawn : JobId)
  | abort (q : RequestId)

def Action.isCreate : Action → Bool
  | .createJob _ _ => true
  | _ => false

def siteStep (cfg : Settings) (s : Site) : SiteAction → Option (Site × List Event)
  | .core a =>
    if a.isCreate then none
    else (step cfg s.core a).map (fun (core, es) => ({ s with core := core }, es))
  | .post q body now =>
    match s.requests q with
    | some _ => none
    | none => some (s.setRequest q ⟨body, receive body now⟩, [])
  | .next q drawn =>
    (s.requests q).bind (fun rq => requestNext cfg s q rq.body drawn rq.pc)
  | .abort q =>
    (s.requests q).bind (fun rq => (requestAbort s q rq.body rq.pc).map (fun t => (t, [])))

/-- Empty tables and no request yet. -/
structure SiteInitial (s : Site) : Prop where
  core : Initial s.core
  idempotency : s.idempotency = .empty
  drawnBy : s.drawnBy = fun _ => none
  requests : s.requests = fun _ => none

def site (cfg : Settings) : Lts.System Site SiteAction Event := ⟨SiteInitial, siteStep cfg⟩

/-- Every step. -/
def anyStep (_ : Site) (_ : SiteAction) : Bool := true

def Site.empty : Site := ⟨State.empty, .empty, fun _ => none, fun _ => none⟩

theorem siteInitial_empty : SiteInitial Site.empty := ⟨initial_empty, rfl, rfl, rfl⟩

end NotifyQueue
