import NotifyQueue.Model.Process
import NotifyQueue.Model.Views

/-!
# The tables of the dashboard

`renderJobs` and `renderDlq` of `app.js`: the text that they assign to `innerHTML`.
What a job has as text is escaped (`esc`); what the API makes of an id, an instant
or a number is not.  `lastUpdated` remembers the `updated_at` of each job drawn, and
a row whose job has another one flashes.
-/

namespace NotifyQueue

/-- What the page gets as text: `str` of an id, `isoformat` of an instant, and the
`toLocaleTimeString` of that. -/
structure PageTexts where
  id : JobId → String
  iso : Time → String
  locale : String → String

def Priority.text : Priority → String
  | .high => "high"
  | .medium => "medium"
  | .low => "low"

def JobStatus.text : JobStatus → String
  | .pending => "pending"
  | .queued => "queued"
  | .claimed => "claimed"
  | .sent => "sent"
  | .failed => "failed"
  | .deadLettered => "dead_lettered"

/-- The replacement of `esc`. -/
def escaped (c : Char) : String :=
  if c = '&' then "&amp;"
  else if c = '<' then "&lt;"
  else if c = '>' then "&gt;"
  else if c = '\x22' then "&quot;"
  else if c = '\x27' then "&#39;"
  else String.singleton c

def esc (value : Option String) : String :=
  String.join ((value.getD "").toList.map escaped)

def shortId (id : String) : String := String.ofList (id.toList.take 8)

def ts (x : PageTexts) (iso : String) : String := if iso = "" then "" else x.locale iso

/-- `state.lastUpdated`. -/
abbrev LastUpdated := String → Option String

/-- Whether the job has been drawn with another `updated_at`. -/
def changedSince (x : PageTexts) (last : LastUpdated) (j : JobView) : Bool :=
  (last (x.id j.id)).any (fun iso => decide (iso ≠ x.iso j.updatedAt))

def jobRow (x : PageTexts) (last : LastUpdated) (j : JobView) : LastUpdated × String :=
  (Function.update last (x.id j.id) (some (x.iso j.updatedAt)),
    "<tr class=\"" ++ (if changedSince x last j then "flash" else "") ++ "\">\n" ++
    "    <td title=\"" ++ x.id j.id ++ "\">" ++ shortId (x.id j.id) ++ "</td>\n" ++
    "    <td title=\"" ++ esc (some j.recipient) ++ "\">" ++ esc (some j.recipient) ++ "</td>\n" ++
    "    <td>" ++ j.channel.text ++ "</td>\n" ++
    "    <td>" ++ j.priority.text ++ "</td>\n" ++
    "    <td class=\"status-" ++ j.status.text ++ "\" title=\"" ++ esc j.errorMessage ++ "\">" ++
      j.status.text ++ "</td>\n" ++
    "    <td>" ++ toString j.attemptCount ++ "/" ++ toString j.maxAttempts ++ "</td>\n" ++
    "    <td>" ++ ts x (x.iso j.sendAt) ++ "</td>\n" ++
    "    <td>" ++ ts x (x.iso j.updatedAt) ++ "</td>\n" ++
    "  </tr>")

/-- `jobs.map(jobRow).join("")`. -/
def jobRows (x : PageTexts) : LastUpdated → List JobView → LastUpdated × String
  | last, [] => (last, "")
  | last, j :: js =>
    let (last, row) := jobRow x last j
    let (last, rows) := jobRows x last js
    (last, row ++ rows)

/-- `renderJobs`, with the `innerHTML` of the table. -/
def renderJobs (x : PageTexts) (filter : Option JobStatus) (last : LastUpdated) :
    List JobView → LastUpdated × String
  | [] => (last, "<tr><td colspan=\"8\" class=\"empty\">no jobs" ++
      (if filter.isSome then " with this status" else " yet") ++ "</td></tr>")
  | jobs => jobRows x last jobs

/-- A row of `renderDlq`. -/
def dlqRow (x : PageTexts) (j : JobView) : String :=
  "<tr>\n" ++
  "            <td title=\"" ++ x.id j.id ++ "\">" ++ shortId (x.id j.id) ++ "</td>\n" ++
  "            <td>" ++ esc (some j.recipient) ++ "</td>\n" ++
  "            <td>" ++ j.channel.text ++ "</td>\n" ++
  "            <td>" ++ toString j.attemptCount ++ "</td>\n" ++
  "            <td title=\"" ++ esc j.errorMessage ++ "\">" ++ esc j.errorMessage ++ "</td>\n" ++
  "            <td><button data-retry=\"" ++ x.id j.id ++ "\">retry</button></td>\n" ++
  "          </tr>"

/-- `renderDlq`: whether the button that retries all is hidden, and the `innerHTML` of
the table. -/
def renderDlq (x : PageTexts) : List JobView → Bool × String
  | [] => (true, "<tr><td colspan=\"6\" class=\"empty\">empty</td></tr>")
  | jobs => (false, String.join (jobs.map (dlqRow x)))

/-- `lastUpdated` after the tables have been drawn one after another, each with the
filter of its time. -/
def drawAll (x : PageTexts) (pages : List (Option JobStatus × List JobView)) : LastUpdated :=
  pages.foldl (fun last page => (renderJobs x page.1 last page.2).1) (fun _ => none)

end NotifyQueue
