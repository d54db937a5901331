import NotifyQueue.Model.Submission

/-!
# The form of `app.js`

`submitJob` builds a body from the form and posts it with `request`, which sends
the same request again when `fetch` fails, three times at most.  A `fetch` fails
when its connection does, whatever becomes of the request: it may be lost on its
way, reach the API all the same, or have been there already, the response being
what is lost.  A response of any status ends the submission.

A `Web` is the site with any number of submissions; a `site` step is one of the
API, of the workers and schedulers, or of another client.
-/

namespace NotifyQueue

abbrev SubmissionId := Nat

/-- `WhiteSpace` and `LineTerminator`, which `trim` strips. -/
def jsWhitespace (c : Char) : Bool :=
  c ∈ ['\t', '\n', '\x0b', '\x0c', '\x0d', ' ', '\u00a0', '\u1680', '\u2028', '\u2029', '\u202f',
    '\u205f', '\u3000', '\ufeff'] || ('\u2000' ≤ c && c ≤ '\u200a')

/-- `String.prototype.trim`. -/
def jsTrim (s : String) : String :=
  String.ofList ((s.toList.dropWhile jsWhitespace).reverse.dropWhile jsWhitespace).reverse

inductive ScheduleMode
  | now | delay | atTime
deriving DecidableEq, Repr

/-- What the form holds when it is submitted. -/
structure Form where
  recipient : String
  channel : Channel := .email
  priority : Priority := .medium
  /-- `JSON.parse` of the payload: the message of its error, or the object, if it is one. -/
  payload : Except String (Option Payload)
  scheduleMode : ScheduleMode := .now
  /-- `Number` of the amount, if that is finite. -/
  delayAmount : Option Rat := some 30
  delayUnit : Rat := 1
  /-- The instant picked, if any. -/
  sendAt : Option Time := none
  callbackUrl : String := ""
  idempotencyKey : String := ""

inductive FormField
  | recipient | payload | delayAmount | sendAt
deriving DecidableEq, Repr

/-- The body as it is sent. -/
structure FormBody where
  recipient : String
  channel : Channel
  priority : Priority
  payload : Payload
  delaySeconds : Option Rat
  sendAt : Option Time
  callbackUrl : Option String
  idempotencyKey : Option String

def parsePayload (form : Form) : Except (FormField × String) Payload :=
  match form.payload with
  | .error message => .error (.payload, "payload: " ++ message)
  | .ok none => .error (.payload, "payload must be a json object")
  | .ok (some payload) => .ok payload

/-- The `delay_seconds` and the `send_at` of the body; `product` is the product of
two numbers. -/
def buildSchedule (product : Rat → Rat → Rat) (form : Form) :
    Except (FormField × String) (Option Rat × Option Time) :=
  match form.scheduleMode with
  | .delay =>
    match form.delayAmount with
    | none => .error (.delayAmount, "delay must be at least 1")
    | some amount =>
      if amount < 1 then .error (.delayAmount, "delay must be at least 1")
      else .ok (some (product amount form.delayUnit), none)
  | .atTime =>
    match form.sendAt with
    | none => .error (.sendAt, "pick a delivery time")
    | some t => .ok (none, some t)
  | .now => .ok (some 0, none)

/-- A trimmed text, unless it is blank. -/
def optionalField (value : String) : Option String :=
  if jsTrim value = "" then none else some (jsTrim value)

/-- `buildRequest`: the body, or the field that is invalid and the message for it. -/
def buildRequest (product : Rat → Rat → Rat) (form : Form) :
    Except (FormField × String) FormBody :=
  let recipient := jsTrim form.recipient
  if recipient = "" then .error (.recipient, "recipient is required")
  else if form.channel = .email ∧ '@' ∉ recipient.toList then
    .error (.recipient, "email channel needs an email address")
  else
    (parsePayload form).bind (fun payload =>
      (buildSchedule product form).map (fun (delaySeconds, sendAt) =>
        { recipient := recipient
          channel := form.channel
          priority := form.priority
          payload := payload
          delaySeconds := delaySeconds
          sendAt := sendAt
          callbackUrl := optionalField form.callbackUrl
          idempotencyKey := optionalField form.idempotencyKey }))

/-- The body as `JobCreate` reads it; `none` for a `delay_seconds` that is no
integer and a `send_at` that is no `datetime`. -/
def FormBody.jobBody? (body : FormBody) : Option JobBody :=
  if body.delaySeconds.all (fun d => d.isInt) ∧ body.sendAt.all (fun t => (datetime? t).isSome) then
    some
      { recipient := body.recipient
        channel := body.channel
        payload := body.payload
        sendAt := body.sendAt
        delaySeconds := body.delaySeconds.map (fun d => d.num)
        priority := body.priority
        callbackUrl := body.callbackUrl
        idempotencyKey := body.idempotencyKey }
  else none

/-- One request that `fetch` has sent. -/
inductive Attempt
  | sending
  /-- It never reaches the API. -/
  | lost
  /-- Answered with 422 for a body that `JobCreate` cannot read. -/
  | unprocessable
  | arrived (q : RequestId)

def Attempt.request? : Attempt → Option RequestId
  | .arrived q => some q
  | _ => none

/-- What `submitJob` tells the user at its end. -/
inductive SubmitResult
  | scheduled (id : JobId)
  | duplicate (existing : Option JobId)
  | invalid
  /-- `request` or `res.json` has thrown. -/
  | requestFailed
deriving DecidableEq, Repr

/-- What the answer to a request is taken for.  The body of a 500 is no JSON. -/
def RequestPc.result? : RequestPc → Option SubmitResult
  | .created id => some (.scheduled id)
  | .conflict existing => some (.duplicate existing)
  | .rejected => some .invalid
  | .failed | .lost _ => some .requestFailed
  | _ => none

/-- A run of `submitJob`: its body, its attempts in their order, and its end. -/
structure Submission where
  body : FormBody
  attempts : List Attempt
  result : Option SubmitResult := none

namespace Submission

/-- The requests of the submission that have reached the API. -/
def reached (sub : Submission) : List RequestId := sub.attempts.filterMap Attempt.request?

/-- The default `retries` of `request`. -/
def retries : Nat := 3

/-- `fetch` has failed: `request` throws or sends the request again. -/
def fetchFailed (sub : Submission) : Submission :=
  if sub.attempts.length - 1 ≥ retries then { sub with result := some .requestFailed }
  else { sub with attempts := sub.attempts ++ [.sending] }

def setAttempt (sub : Submission) (n : Nat) (attempt : Attempt) : Submission :=
  { sub with attempts := sub.attempts.set n attempt }

end Submission

structure Web where
  site : Site
  submissions : SubmissionId → Option Submission

def Web.setSubmission (w : Web) (c : SubmissionId) (sub : Submission) : Web :=
  { w with submissions := Function.update w.submissions c (some sub) }

inductive WebAction
  | site (a : SiteAction)
  | submit (c : SubmissionId) (form : Form)
  /-- Attempt `n` of `c` reaches the API. -/
  | arrive (c : SubmissionId) (n : Nat) (q : RequestId) (now : Time)
  | lose (c : SubmissionId) (n : Nat)
  | fetchFails (c : SubmissionId)
  /-- The response to the latest attempt comes in. -/
  | respond (c : SubmissionId)

/-- Attempt `n` of `c` arrives, as request `q`. -/
def arrive (cfg : Settings) (w : Web) (c : SubmissionId) (sub : Submission) (n : Nat)
    (q : RequestId) (now : Time) : Option (Web × List Event) :=
  match sub.body.jobBody? with
  | none => some (w.setSubmission c (sub.setAttempt n .unprocessable), [])
  | some body =>
    (siteStep cfg w.site (.post q body now)).map (fun (s, es) =>
      ({ w with site := s }.setSubmission c (sub.setAttempt n (.arrived q)), es))

/-- The result that the answer to the latest attempt gives. -/
def Web.answer? (w : Web) (sub : Submission) : Option SubmitResult :=
  match sub.attempts.getLast? with
  | some (.arrived q) => (w.site.requests q).bind (fun rq => rq.pc.result?)
  | some .unprocessable => some .invalid
  | _ => none

def webStep (cfg : Settings) (product : Rat → Rat → Rat) (w : Web) :
    WebAction → Option (Web × List Event)
  | .site a => (siteStep cfg w.site a).map (fun (s, es) => ({ w with site := s }, es))
  | .submit c form =>
    match w.submissions c, buildRequest product form with
    | none, .ok body => some (w.setSubmission c ⟨body, [.sending], none⟩, [])
    | _, _ => none
  | .arrive c n q now =>
    (w.submissions c).bind (fun sub =>
      match sub.attempts[n]? with
      | some .sending => arrive cfg w c sub n q now
      | _ => none)
  | .lose c n =>
    (w.submissions c).bind (fun sub =>
      match sub.attempts[n]? with
      | some .sending => some (w.setSubmission c (sub.setAttempt n .lost), [])
      | _ => none)
  | .fetchFails c =>
    (w.submissions c).bind (fun sub =>
      if sub.result.isSome then none else some (w.setSubmission c sub.fetchFailed, []))
  | .respond c =>
    (w.submissions c).bind (fun sub =>
      if sub.result.isSome then none
      else
        (w.answer? sub).map (fun result =>
          (w.setSubmission c { sub with result := some result }, [])))

/-- Empty tables, no request and no submission yet. -/
structure WebInitial (w : Web) : Prop where
  site : SiteInitial w.site
  submissions : w.submissions = fun _ => none

def web (cfg : Settings) (product : Rat → Rat → Rat) : Lts.System Web WebAction Event :=
  ⟨WebInitial, webStep cfg product⟩

/-- Every step. -/
def anyWebStep (_ : Web) (_ : WebAction) : Bool := true

def Web.empty : Web := ⟨Site.empty, fun _ => none⟩

theorem webInitial_empty : WebInitial Web.empty := ⟨siteInitial_empty, rfl⟩

end NotifyQueue
