import NotifyQueue.Model.Submission
import NotifyQueue.Model.Views

/-!
# `scripts/simulate.py`

One run of the simulation over the site, next to everything else that goes on
there: it reads the metrics, submits its jobs one after another, polls until no
job is active, and then checks the books.  A poll is two requests, `GET /metrics`
and `GET /jobs`, and the site goes on between them.
-/

namespace NotifyQueue

open KeyedTable

/-- What `Simulation` is made with, and the key of the duplicate pair. -/
structure Simulation where
  api : String
  jobs : Nat := 50
  burst : Nat := 15
  burstRecipient : String := "hot@example.com"
  runDelivery : Bool := true
  runIdempotency : Bool := true
  runRateLimit : Bool := true
  duplicateKey : String

/-- A request to send: whether the statuses are checked after it, and the one
that is expected. -/
structure Planned where
  body : JobBody
  expected : Nat
  checked : Bool

namespace Simulation

/-- `DEFERRAL_THRESHOLD`. -/
def deferralThreshold : Time := 600 * second

/-- The `limit` of the list that `split_pending` asks for. -/
def pendingLimit : Nat := 200

def channels : List Channel := [.email, .sms, .push]

def priorities : List Priority := [.high, .medium, .low]

/-- `self.jobs` and `self.burst`. -/
def deliveryJobs (sim : Simulation) : Nat := if sim.runDelivery then sim.jobs else 0

def burstJobs (sim : Simulation) : Nat := if sim.runRateLimit then sim.burst else 0

def total (sim : Simulation) : Nat :=
  sim.deliveryJobs + (if sim.runIdempotency then 1 else 0) + sim.burstJobs

/-- The bodies of `submit_delivery_jobs`. -/
def deliveryBody (sim : Simulation) (i : Nat) : JobBody where
  recipient := "user" ++ toString (i % 10) ++ "@example.com"
  channel := channels.getD (i % 3) .email
  payload := "\x7b\"seq\": " ++ toString i ++ "\x7d"
  delaySeconds := some (i % 15)
  priority := priorities.getD (i % 3) .high
  callbackUrl := some (sim.api ++ "/webhook-mock")

/-- The body of `submit_duplicate_pair`. -/
def duplicateBody (sim : Simulation) : JobBody where
  recipient := "dup@example.com"
  channel := .email
  payload := "\x7b\x7d"
  delaySeconds := some 0
  priority := .high
  idempotencyKey := some ("sim-dup-" ++ sim.duplicateKey)

/-- The body of `submit_rate_limit_burst`. -/
def burstBody (sim : Simulation) : JobBody where
  recipient := sim.burstRecipient
  channel := .sms
  payload := "\x7b\x7d"
  delaySeconds := some 0
  priority := .medium

/-- What `run` submits, in its order. -/
def plan (sim : Simulation) : List Planned :=
  (if sim.runDelivery then
    (List.range sim.deliveryJobs).map (fun i => ⟨sim.deliveryBody i, 201, true⟩) else []) ++
  (if sim.runIdempotency then
    [⟨sim.duplicateBody, 201, false⟩, ⟨sim.duplicateBody, 409, true⟩] else []) ++
  (if sim.runRateLimit then List.replicate sim.burstJobs ⟨sim.burstBody, 201, true⟩ else [])

end Simulation

/-- The answer of `GET /metrics`. -/
abbrev Counts := JobStatus → Nat

/-- Where the simulation is in `run`. -/
inductive SimPc
  | measuring
  /-- What is still to be sent; `ok` says that the statuses since the latest check
  are those expected. -/
  | submitting (baseline : Counts) (todo : List Planned) (ok : Bool)
  | answering (baseline : Counts) (q : RequestId) (sent : Planned) (todo : List Planned)
      (ok : Bool)
  | watching (baseline : Counts)
  | splitting (baseline metrics : Counts)
  | balanced (baseline metrics : Counts) (deferred : Nat)
  | unbalanced (baseline metrics : Counts) (deferred : Nat)
  | nothingSubmitted
  /-- `sys.exit(1)` for another reason, or an exception. -/
  | exited

/-- The status of the answer to a `POST /jobs`. -/
def RequestPc.status? : RequestPc → Option Nat
  | .created _ => some 201
  | .conflict _ => some 409
  | .rejected => some 422
  | .failed | .lost _ => some 500
  | .inserting _ | .keying _ _ _ | .committing _ _ | .responding _ | .rollingBack _ |
    .looking _ => none

namespace Simulation

/-- On to the next request, or to `watch_until_drained`. -/
def submitOn (sim : Simulation) (baseline : Counts) (todo : List Planned) (ok : Bool) : SimPc :=
  match todo with
  | [] => if sim.total = 0 then .nothingSubmitted else .watching baseline
  | _ => .submitting baseline todo ok

/-- The request has been answered with the status. -/
def answered (sim : Simulation) (baseline : Counts) (sent : Planned) (todo : List Planned)
    (ok : Bool) (status : Nat) : SimPc :=
  let ok := ok && decide (status = sent.expected)
  if !sent.checked then sim.submitOn baseline todo ok
  else if ok then sim.submitOn baseline todo true
  else .exited

/-- `split_pending`: the pending jobs in flight and those deferred. -/
def splitPending (jobs : List JobView) (now : Time) : Nat × Nat :=
  let inFlight := jobs.countP (fun j => decide (j.sendAt ≤ now + deferralThreshold))
  (inFlight, jobs.length - inFlight)

/-- The check at the end of `run`. -/
def books (sim : Simulation) (baseline metrics : Counts) (deferred : Nat) : SimPc :=
  let sent : Int := metrics .sent - baseline .sent
  let dead : Int := metrics .deadLettered - baseline .deadLettered
  if sent + dead + deferred < sim.total then .unbalanced baseline metrics deferred
  else .balanced baseline metrics deferred

/-- The end of a poll; `late` says that the deadline has passed. -/
def polled (sim : Simulation) (baseline metrics : Counts) (jobs : List JobView) (now : Time)
    (late : Bool) : SimPc :=
  let (pendingActive, deferred) := splitPending jobs now
  if metrics .queued + metrics .claimed + pendingActive = 0 then
    sim.books baseline metrics deferred
  else if late then .exited
  else .watching baseline

end Simulation

structure SimState where
  site : Site
  pc : SimPc

inductive SimAction
  | site (a : SiteAction)
  /-- `GET /metrics`. -/
  | measure
  /-- The next body is posted. -/
  | submit (q : RequestId) (now : Time)
  /-- The response comes in. -/
  | respond
  /-- `GET /jobs`, when the list is that of `ids`; `now` is the clock of the simulation. -/
  | split (ids : List JobId) (now : Time) (late : Bool)
  /-- A request of the simulation fails. -/
  | raise

def simStep (cfg : Settings) (sim : Simulation) (x : SimState) :
    SimAction → Option (SimState × List Event)
  | .site a => (siteStep cfg x.site a).map (fun (site, es) => ({ x with site := site }, es))
  | .measure =>
    match x.pc with
    | .measuring =>
      some ({ x with pc := sim.submitOn (metrics x.site.core.db) sim.plan true }, [])
    | .watching baseline => some ({ x with pc := .splitting baseline (metrics x.site.core.db) }, [])
    | _ => none
  | .submit q now =>
    match x.pc with
    | .submitting baseline (next :: todo) ok =>
      (siteStep cfg x.site (.post q next.body now)).map (fun (site, es) =>
        (⟨site, .answering baseline q next todo ok⟩, es))
    | _ => none
  | .respond =>
    match x.pc with
    | .answering baseline q sent todo ok =>
      (x.site.requests q).bind (fun rq => rq.pc.status?.map (fun status =>
        ({ x with pc := sim.answered baseline sent todo ok status }, [])))
    | _ => none
  | .split ids now late =>
    match x.pc with
    | .splitting baseline metrics =>
      if recent x.site.core.db (some .pending) Simulation.pendingLimit ids then
        some ({ x with
          pc := sim.polled baseline metrics (listJobs x.site.core.db ids) now late }, [])
      else none
    | _ => none
  | .raise =>
    match x.pc with
    | .balanced _ _ _ | .unbalanced _ _ _ | .nothingSubmitted | .exited => none
    | _ => some ({ x with pc := .exited }, [])

/-- Empty tables; the simulation may start at any time. -/
structure SimInitial (x : SimState) : Prop where
  site : SiteInitial x.site
  pc : x.pc = .measuring

def simulation (cfg : Settings) (sim : Simulation) : Lts.System SimState SimAction Event :=
  ⟨SimInitial, simStep cfg sim⟩

def SimState.empty : SimState := ⟨Site.empty, .measuring⟩

theorem simInitial_empty : SimInitial SimState.empty := ⟨siteInitial_empty, rfl⟩

end NotifyQueue
