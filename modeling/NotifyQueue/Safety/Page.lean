import NotifyQueue.Lib.Markup
import NotifyQueue.Model.Page

/-!
# What the tables show

The `innerHTML` of the two tables is the text of the templates with the data of the jobs
escaped in between (`jobsTable`, `dlqTable`), so a browser has a row of it for each job, in
their order (`jobsShown`, `dlqsShown`): whatever a recipient or an error message contains,
it is shown as it is and adds no tag and no attribute, and the button of a dead letter has
the id of its job.

A row flashes just when the job was last drawn with another `updated_at`, however
often the tables have been drawn before (`lastOf`).
-/

namespace NotifyQueue

open Markup

/-! ### Texts that need no escaping -/

/-- The characters of a text are written as they are. -/
def PlainText (s : String) : Prop := ∀ c ∈ s.toList, escapeChar c = [c] ∧ c ≠ '\x00'

/-- What the code writes without escaping it: an id is of hexadecimal digits and
hyphens, a time of day has no character of the markup. -/
structure PageTexts.Plain (x : PageTexts) : Prop where
  id : ∀ id, (x.id id).toList.all nameChar = true
  locale : ∀ iso, PlainText (x.locale iso)

/-- The texts of a row have no U+0000. -/
structure JobView.Clean (j : JobView) : Prop where
  recipient : '\x00' ∉ j.recipient.toList
  errorMessage : '\x00' ∉ (j.errorMessage.getD "").toList

variable {x : PageTexts} {s t : String} {j : JobView} {last : LastUpdated} {h jobs : List JobView}

theorem PlainText.escape (hs : PlainText s) : Markup.escape s.toList = s.toList :=
  escape_of_plain (fun c hc => (hs c hc).1)

theorem PlainText.clean (hs : PlainText s) : '\x00' ∉ s.toList := fun h => (hs _ h).2 rfl

theorem PlainText.append (hs : PlainText s) (ht : PlainText t) : PlainText (s ++ t) := by
  intro c hc
  rw [String.toList_append] at hc
  exact (List.mem_append.mp hc).elim (hs c) (ht c)

theorem plain_of_all
    (hs : s.toList.all (fun c => decide (escapeChar c = [c] ∧ c ≠ '\x00')) = true) :
    PlainText s := fun c hc => of_decide_eq_true (List.all_eq_true.mp hs c hc)

theorem plain_of_name (hs : s.toList.all nameChar = true) : PlainText s := by
  intro c hc
  have hn := List.all_eq_true.mp hs c hc
  rcases escapeChar_cases c with
    ⟨rfl, -⟩ | ⟨rfl, -⟩ | ⟨rfl, -⟩ | ⟨rfl, -⟩ | ⟨rfl, -⟩ | ⟨-, -, -, he⟩
  case inr.inr.inr.inr.inr => exact ⟨he, ne_of_nameChar hn rfl⟩
  all_goals exact absurd hn (by decide)

theorem plain_nat (n : Nat) : PlainText (toString n) := by
  refine plain_of_name (List.all_eq_true.mpr (fun c hc => ?_))
  rw [Nat.toString_eq_repr, Nat.toList_repr] at hc
  have hdigit := Nat.isDigit_of_mem_toDigits (by decide) (by decide) hc
  simp [nameChar, hdigit]

theorem plain_int (n : Int) : PlainText (toString n) := by
  cases n with
  | ofNat n => exact plain_nat n
  | negSucc n =>
    have hminus : PlainText "-" := plain_of_name (by decide)
    exact hminus.append (plain_nat (n + 1))

theorem plain_shortId (hx : x.Plain) (id : JobId) : PlainText (shortId (x.id id)) := by
  refine plain_of_name (List.all_eq_true.mpr (fun c hc => ?_))
  rw [shortId, String.toList_ofList] at hc
  exact List.all_eq_true.mp (hx.id id) c (List.mem_of_mem_take hc)

theorem plain_ts (hx : x.Plain) (iso : String) : PlainText (ts x iso) := by
  unfold ts
  split
  · exact plain_of_name rfl
  · exact hx.locale iso

theorem plain_status (status : JobStatus) : PlainText status.text := by
  cases status <;> exact plain_of_all (by decide)

theorem toList_escaped (c : Char) : (escaped c).toList = escapeChar c := by
  unfold escaped escapeChar
  split_ifs
  case neg => exact String.toList_singleton c
  all_goals rfl

/-- `esc` writes a text so that it can be read back. -/
theorem toList_esc (value : Option String) :
    (esc value).toList = Markup.escape (value.getD "").toList := by
  rw [esc, String.toList_join, List.flatMap_map, Markup.escape]
  exact List.flatMap_congr (fun c _ => toList_escaped c)

/-! ### The rows as pieces -/

def startTag (name : String) (attrs : List (String × String)) : Tag :=
  .start name.toList (attrs.map (fun (attr, v) => (attr.toList, v.toList)))

def endTag (name : String) : Tag := .close name.toList

def piece (s : String) (t : Tag) : Piece := (s.toList, t)

/-- A cell, and the white space before it. -/
def cell (pad : String) (attrs : List (String × String)) (text : String) : List Piece :=
  [piece pad (startTag "td" attrs), piece text (endTag "td")]

/-- The cells of a row of the jobs table, each with its attributes and its text. -/
def jobCells (x : PageTexts) (j : JobView) : List (List (String × String) × String) :=
  [([("title", x.id j.id)], shortId (x.id j.id)),
    ([("title", j.recipient)], j.recipient),
    ([], j.channel.text),
    ([], j.priority.text),
    ([("class", "status-" ++ j.status.text), ("title", j.errorMessage.getD "")], j.status.text),
    ([], toString j.attemptCount ++ "/" ++ toString j.maxAttempts),
    ([], ts x (x.iso j.sendAt)),
    ([], ts x (x.iso j.updatedAt))]

/-- Those of a row of the table of dead letters, but for the one with the button. -/
def dlqCells (x : PageTexts) (j : JobView) : List (List (String × String) × String) :=
  [([("title", x.id j.id)], shortId (x.id j.id)),
    ([], j.recipient),
    ([], j.channel.text),
    ([], toString j.attemptCount),
    ([("title", j.errorMessage.getD "")], j.errorMessage.getD "")]

def rowAttrs (changed : Bool) : List (String × String) :=
  [("class", if changed then "flash" else "")]

def jobPieces (x : PageTexts) (changed : Bool) (j : JobView) : List Piece :=
  piece "" (startTag "tr" (rowAttrs changed)) ::
    ((jobCells x j).flatMap (fun c => cell "\n    " c.1 c.2) ++ [piece "\n  " (endTag "tr")])

/-- The cell with the button. -/
def buttonPieces (pad : String) (id : String) : List Piece :=
  [piece pad (startTag "td" []), piece "" (startTag "button" [("data-retry", id)]),
    piece "retry" (endTag "button"), piece "" (endTag "td")]

def dlqPieces (x : PageTexts) (j : JobView) : List Piece :=
  piece "" (startTag "tr" []) ::
    ((dlqCells x j).flatMap (fun c => cell "\n            " c.1 c.2) ++
      (buttonPieces "\n            " (x.id j.id) ++ [piece "\n          " (endTag "tr")]))

theorem print_append (ps qs : List Piece) : print (ps ++ qs) = print ps ++ print qs :=
  List.flatMap_append

theorem print_piece (s : String) (t : Tag) (ps : List Piece) :
    print (piece s t :: ps) = Markup.escape s.toList ++ (printTag t ++ print ps) := by
  rw [print, List.flatMap_cons, List.append_assoc]
  rfl

theorem print_nil : print [] = [] := rfl

theorem printTag_startTag (name : String) (attrs : List (String × String)) :
    printTag (startTag name attrs) =
      '<' :: (name.toList ++ (attrs.flatMap (fun a =>
        ' ' :: (a.1.toList ++ '=' :: '\x22' :: (Markup.escape a.2.toList ++ ['\x22']))) ++
          ['>'])) := by
  rw [startTag, printTag, List.flatMap_map]
  rfl

theorem printTag_endTag (name : String) :
    printTag (endTag name) = '<' :: '/' :: (name.toList ++ ['>']) := rfl

theorem plain_class (status : JobStatus) : PlainText ("status-" ++ status.text) :=
  PlainText.append (plain_of_name (by decide)) (plain_status status)

theorem plain_attempts (j : JobView) :
    PlainText (toString j.attemptCount ++ "/" ++ toString j.maxAttempts) := by
  have hslash : PlainText "/" := plain_of_all (by decide)
  exact ((plain_nat _).append hslash).append (plain_int _)

theorem plain_channel (channel : Channel) : PlainText channel.text := by
  cases channel <;> exact plain_of_name (by decide)

theorem plain_priority (priority : Priority) : PlainText priority.text := by
  cases priority <;> exact plain_of_name (by decide)

theorem print_plain (hs : PlainText s) (t : Tag) (ps : List Piece) :
    print (piece s t :: ps) = s.toList ++ (printTag t ++ print ps) := by
  rw [print_piece, hs.escape]

theorem print_cell {pad : String} (hpad : PlainText pad) (attrs : List (String × String))
    (text : String) (ps : List Piece) : print (cell pad attrs text ++ ps) =
      pad.toList ++ (printTag (startTag "td" attrs) ++
        (Markup.escape text.toList ++ (printTag (endTag "td") ++ print ps))) := by
  rw [cell, List.cons_append, List.cons_append, List.nil_append, print_plain hpad, print_piece]

theorem plain_empty : PlainText "" := plain_of_name rfl

theorem plain_space {s : String} (hs : s.toList.all (fun c => c = '\n' || c = ' ') = true) :
    PlainText s := by
  intro c hc
  have hspace := List.all_eq_true.mp hs c hc
  rw [Bool.or_eq_true, decide_eq_true_eq, decide_eq_true_eq] at hspace
  rcases hspace with rfl | rfl <;> exact ⟨rfl, by decide⟩

set_option maxRecDepth 2000 in
theorem toList_jobRow (hx : x.Plain) :
    (jobRow x last j).2.toList = print (jobPieces x (changedSince x last j) j) := by
  have hpad : PlainText "\n    " := plain_space (by decide)
  have hend : PlainText "\n  " := plain_space (by decide)
  have hid := (plain_of_name (hx.id j.id)).escape
  have hshort := (plain_shortId hx j.id).escape
  have hchannel := (plain_channel j.channel).escape
  have hpriority := (plain_priority j.priority).escape
  have hstatus := (plain_status j.status).escape
  have hclass := (plain_class j.status).escape
  have hattempts := (plain_attempts j).escape
  have hsend := (plain_ts hx (x.iso j.sendAt)).escape
  have hupdated := (plain_ts hx (x.iso j.updatedAt)).escape
  have hflash : Markup.escape (if changedSince x last j then "flash" else "").toList =
      (if changedSince x last j then "flash" else "").toList := by
    split <;> rfl
  simp only [jobPieces, jobCells, rowAttrs, List.flatMap_cons, List.flatMap_nil,
    List.append_assoc, List.nil_append]
  rw [print_plain plain_empty]
  iterate 8 rw [print_cell hpad]
  rw [print_plain hend]
  simp only [print_nil, printTag_startTag, printTag_endTag, List.flatMap_cons, List.flatMap_nil,
    hid, hshort, hchannel, hpriority, hstatus, hclass, hattempts, hsend, hupdated, hflash]
  simp [jobRow, toList_esc]

set_option maxRecDepth 2000 in
theorem toList_dlqRow (hx : x.Plain) : (dlqRow x j).toList = print (dlqPieces x j) := by
  have hpad : PlainText "\n            " := plain_space (by decide)
  have hend : PlainText "\n          " := plain_space (by decide)
  have hretry : PlainText "retry" := plain_of_name (by decide)
  have hid := (plain_of_name (hx.id j.id)).escape
  have hshort := (plain_shortId hx j.id).escape
  have hchannel := (plain_channel j.channel).escape
  have hattempts := (plain_nat j.attemptCount).escape
  simp only [dlqPieces, dlqCells, buttonPieces, List.flatMap_cons, List.flatMap_nil,
    List.append_assoc, List.nil_append, List.cons_append]
  rw [print_plain plain_empty]
  iterate 5 rw [print_cell hpad]
  rw [print_plain hpad, print_plain plain_empty, print_plain hretry, print_plain plain_empty,
    print_plain hend]
  simp only [print_nil, printTag_startTag, printTag_endTag, List.flatMap_cons, List.flatMap_nil,
    hid, hshort, hchannel, hattempts]
  unfold dlqRow
  simp [toList_esc]

/-! ### The rows can be read back -/

theorem readable_piece {t : Tag} (hs : '\x00' ∉ s.toList) (ht : t.Readable) :
    Readable (piece s t) := ⟨hs, ht⟩

theorem readable_startTag {name : String} {attrs : List (String × String)}
    (hname : isName name.toList = true)
    (hattrs : ∀ a ∈ attrs, isName a.1.toList = true ∧ '\x00' ∉ a.2.toList)
    (hnodup : (attrs.map (fun a => a.1.toList)).Nodup) : (startTag name attrs).Readable := by
  refine ⟨hname, fun a ha => ?_, by rwa [List.map_map]⟩
  obtain ⟨b, hb, rfl⟩ := List.mem_map.mp ha
  exact ⟨(hattrs b hb).1, (hattrs b hb).2⟩

theorem readable_cell {pad text : String} {attrs : List (String × String)}
    (hpad : '\x00' ∉ pad.toList)
    (hattrs : ∀ a ∈ attrs, isName a.1.toList = true ∧ '\x00' ∉ a.2.toList)
    (hnodup : (attrs.map (fun a => a.1.toList)).Nodup) (htext : '\x00' ∉ text.toList) :
    ∀ p ∈ cell pad attrs text, Readable p := by
  intro p hp
  rcases List.mem_cons.mp hp with rfl | hp
  · exact readable_piece hpad (readable_startTag rfl hattrs hnodup)
  · rw [List.mem_singleton.mp hp]
    exact readable_piece htext rfl

theorem readable_text {pad text : String} (hpad : '\x00' ∉ pad.toList)
    (htext : '\x00' ∉ text.toList) : ∀ p ∈ cell pad [] text, Readable p :=
  readable_cell hpad (fun _ ha => absurd ha List.not_mem_nil) List.nodup_nil htext

theorem isName_title : isName "title".toList = true := by decide

theorem isName_class : isName "class".toList = true := by decide

theorem readable_titled {pad text title : String} (hpad : '\x00' ∉ pad.toList)
    (htitle : '\x00' ∉ title.toList) (htext : '\x00' ∉ text.toList) :
    ∀ p ∈ cell pad [("title", title)] text, Readable p := by
  refine readable_cell hpad (fun a ha => ?_) (List.nodup_singleton _) htext
  rw [List.mem_singleton.mp ha]
  exact ⟨isName_title, htitle⟩

theorem readable_jobPieces (hx : x.Plain) (hj : j.Clean) (changed : Bool) :
    ∀ p ∈ jobPieces x changed j, Readable p := by
  have hid := (plain_of_name (hx.id j.id)).clean
  have hpad : '\x00' ∉ "\n    ".toList := by decide
  have hrow : ∀ a ∈ rowAttrs changed, isName a.1.toList = true ∧
      '\x00' ∉ a.2.toList := by
    intro a ha
    rw [List.mem_singleton.mp ha]
    exact ⟨isName_class, by cases changed <;> decide⟩
  have hstatus : ∀ a ∈ [("class", "status-" ++ j.status.text), ("title", j.errorMessage.getD "")],
      isName a.1.toList = true ∧ '\x00' ∉ a.2.toList := by
    intro a ha
    rcases List.mem_cons.mp ha with rfl | ha
    · exact ⟨isName_class, (plain_class j.status).clean⟩
    · rw [List.mem_singleton.mp ha]
      exact ⟨isName_title, hj.errorMessage⟩
  simp only [jobPieces, jobCells, List.flatMap_cons, List.flatMap_nil, List.append_nil,
    List.forall_mem_cons, List.forall_mem_append]
  refine ⟨readable_piece (by decide) (readable_startTag rfl hrow (List.nodup_singleton _)),
    ⟨?_, ?_, ?_, ?_, ?_, ?_, ?_, ?_⟩, ?_⟩
  · exact readable_titled hpad hid (plain_shortId hx j.id).clean
  · exact readable_titled hpad hj.recipient hj.recipient
  · exact readable_text hpad (plain_channel _).clean
  · exact readable_text hpad (plain_priority _).clean
  · exact readable_cell hpad hstatus (by simp) (plain_status _).clean
  · exact readable_text hpad (plain_attempts j).clean
  · exact readable_text hpad (plain_ts hx _).clean
  · exact readable_text hpad (plain_ts hx _).clean
  · exact ⟨readable_piece (by decide) rfl, fun _ h => absurd h List.not_mem_nil⟩

theorem readable_dlqPieces (hx : x.Plain) (hj : j.Clean) : ∀ p ∈ dlqPieces x j, Readable p := by
  have hid := (plain_of_name (hx.id j.id)).clean
  have hpad : '\x00' ∉ "\n            ".toList := by decide
  have hretry : isName "data-retry".toList = true := by decide
  have hbutton : ∀ a ∈ [("data-retry", x.id j.id)],
      isName a.1.toList = true ∧ '\x00' ∉ a.2.toList := by
    intro a ha
    rw [List.mem_singleton.mp ha]
    exact ⟨hretry, hid⟩
  have hbare : (startTag "td" []).Readable :=
    readable_startTag rfl (fun _ ha => absurd ha List.not_mem_nil) List.nodup_nil
  simp only [dlqPieces, dlqCells, buttonPieces, List.flatMap_cons, List.flatMap_nil,
    List.append_nil, List.forall_mem_cons, List.forall_mem_append]
  refine ⟨readable_piece (by decide) (readable_startTag rfl
      (fun _ ha => absurd ha List.not_mem_nil) List.nodup_nil),
    ⟨?_, ?_, ?_, ?_, ?_⟩, ⟨readable_piece hpad hbare, ?_, ?_, ?_, ?_⟩, ?_, ?_⟩
  · exact readable_titled hpad hid (plain_shortId hx j.id).clean
  · exact readable_text hpad hj.recipient
  · exact readable_text hpad (plain_channel _).clean
  · exact readable_text hpad (plain_nat _).clean
  · exact readable_titled hpad hj.errorMessage hj.errorMessage
  · exact readable_piece (by decide) (readable_startTag rfl hbutton (List.nodup_singleton _))
  · exact readable_piece (by decide) rfl
  · exact readable_piece (by decide) rfl
  · exact fun _ h => absurd h List.not_mem_nil
  · exact readable_piece (by decide) rfl
  · exact fun _ h => absurd h List.not_mem_nil

/-! ### What has been drawn -/

/-- The `updated_at` of each job when it was last drawn; `h` has the rows drawn, the
latest first. -/
def lastOf (x : PageTexts) (h : List JobView) : LastUpdated := fun id =>
  (h.find? (fun d => decide (x.id d.id = id))).map (fun d => x.iso d.updatedAt)

/-- The rows of `jobs`, drawn after those of `h`. -/
def rowsPieces (x : PageTexts) : List JobView → List JobView → List Piece
  | _, [] => []
  | h, j :: js => jobPieces x (changedSince x (lastOf x h) j) j ++ rowsPieces x (j :: h) js

/-- The jobs table. -/
def jobsTable (x : PageTexts) (filter : Option JobStatus) (h : List JobView) :
    List JobView → List Piece
  | [] =>
    [piece "" (startTag "tr" []), piece "" (startTag "td" [("colspan", "8"), ("class", "empty")]),
      piece ("no jobs" ++ if filter.isSome then " with this status" else " yet") (endTag "td"),
      piece "" (endTag "tr")]
  | jobs => rowsPieces x h jobs

/-- The table of dead letters. -/
def dlqTable (x : PageTexts) : List JobView → List Piece
  | [] =>
    [piece "" (startTag "tr" []), piece "" (startTag "td" [("colspan", "6"), ("class", "empty")]),
      piece "empty" (endTag "td"), piece "" (endTag "tr")]
  | jobs => jobs.flatMap (dlqPieces x)

/-- The rows of the tables that have been drawn, the latest first. -/
def drawn (pages : List (Option JobStatus × List JobView)) : List JobView :=
  (pages.flatMap Prod.snd).reverse

theorem jobRow_lastOf : (jobRow x (lastOf x h) j).1 = lastOf x (j :: h) := by
  funext id
  rw [jobRow, lastOf, List.find?_cons]
  by_cases hid : x.id j.id = id
  · subst hid
    simp
  · simp [hid, Function.update_of_ne (Ne.symm hid), lastOf]

/-- **The rows of a table, one after another.** -/
theorem jobRows_spec (hx : x.Plain) (h jobs : List JobView) :
    (jobRows x (lastOf x h) jobs).1 = lastOf x (jobs.reverse ++ h) ∧
      (jobRows x (lastOf x h) jobs).2.toList = print (rowsPieces x h jobs) := by
  induction jobs generalizing h with
  | nil => exact ⟨rfl, rfl⟩
  | cons j js ih =>
    obtain ⟨hlast, htext⟩ := ih (j :: h)
    simp only [jobRows, jobRow_lastOf, rowsPieces, print_append]
    refine ⟨?_, ?_⟩
    · rw [hlast, List.reverse_cons, List.append_assoc]
      rfl
    · rw [String.toList_append, toList_jobRow hx, htext]

theorem renderJobs_lastOf (hx : x.Plain) (filter : Option JobStatus) (h jobs : List JobView) :
    (renderJobs x filter (lastOf x h) jobs).1 = lastOf x (jobs.reverse ++ h) := by
  cases jobs with
  | nil => rfl
  | cons j js => exact (jobRows_spec hx h (j :: js)).1

/-- `lastUpdated` is what the tables drawn so far tell of it. -/
theorem drawAll_eq (hx : x.Plain) (pages : List (Option JobStatus × List JobView)) :
    drawAll x pages = lastOf x (drawn pages) := by
  induction pages using List.reverseRecOn with
  | nil => rfl
  | append_singleton pages page ih =>
    have hdrawn : drawn (pages ++ [page]) = page.2.reverse ++ drawn pages := by
      simp [drawn]
    rw [drawAll, List.foldl_append, List.foldl_cons, List.foldl_nil, hdrawn]
    rw [drawAll] at ih
    rw [ih]
    exact renderJobs_lastOf hx page.1 (drawn pages) page.2

theorem toList_renderJobs (hx : x.Plain) (filter : Option JobStatus) (h jobs : List JobView) :
    (renderJobs x filter (lastOf x h) jobs).2.toList = print (jobsTable x filter h jobs) := by
  cases jobs with
  | nil =>
    cases filter <;> simp [renderJobs, jobsTable, piece, startTag, endTag, print, printTag,
      printAttr, Markup.escape, escapeChar]
  | cons j js => exact (jobRows_spec hx h (j :: js)).2

theorem toList_renderDlq (hx : x.Plain) (jobs : List JobView) :
    (renderDlq x jobs).2.toList = print (dlqTable x jobs) := by
  cases jobs with
  | nil =>
    simp [renderDlq, dlqTable, piece, startTag, endTag, print, printTag, printAttr,
      Markup.escape, escapeChar]
  | cons j js =>
    have hrender : renderDlq x (j :: js) = (false, String.join ((j :: js).map (dlqRow x))) := rfl
    have htable : dlqTable x (j :: js) = (j :: js).flatMap (dlqPieces x) := rfl
    rw [hrender, htable, String.toList_join, List.flatMap_map, print, List.flatMap_assoc]
    exact List.flatMap_congr (fun d _ => toList_dlqRow hx)

theorem readable_rowsPieces (hx : x.Plain) (hjobs : ∀ j ∈ jobs, j.Clean) (h : List JobView) :
    ∀ p ∈ rowsPieces x h jobs, Readable p := by
  induction jobs generalizing h with
  | nil => exact fun _ hp => absurd hp List.not_mem_nil
  | cons j js ih =>
    rw [List.forall_mem_cons] at hjobs
    rw [rowsPieces, List.forall_mem_append]
    exact ⟨readable_jobPieces hx hjobs.1 _, ih hjobs.2 _⟩

theorem readable_empty {columns text : String} (hcolumns : '\x00' ∉ columns.toList)
    (htext : '\x00' ∉ text.toList) : ∀ p ∈ [piece "" (startTag "tr" []),
      piece "" (startTag "td" [("colspan", columns), ("class", "empty")]),
      piece text (endTag "td"), piece "" (endTag "tr")], Readable p := by
  have hcolspan : isName "colspan".toList = true := by decide
  have hattrs : ∀ a ∈ [("colspan", columns), ("class", "empty")],
      isName a.1.toList = true ∧ '\x00' ∉ a.2.toList := by
    intro a ha
    rcases List.mem_cons.mp ha with rfl | ha
    · exact ⟨hcolspan, hcolumns⟩
    · rw [List.mem_singleton.mp ha]
      exact ⟨isName_class, by decide⟩
  simp only [List.forall_mem_cons]
  exact ⟨readable_piece (by decide) (readable_startTag rfl
      (fun _ ha => absurd ha List.not_mem_nil) List.nodup_nil),
    readable_piece (by decide) (readable_startTag rfl hattrs (by simp)), readable_piece htext rfl,
    readable_piece (by decide) rfl, fun _ h => absurd h List.not_mem_nil⟩

theorem readable_jobsTable (hx : x.Plain) (filter : Option JobStatus) (h : List JobView)
    (hjobs : ∀ j ∈ jobs, j.Clean) : ∀ p ∈ jobsTable x filter h jobs, Readable p := by
  cases jobs with
  | nil => exact readable_empty (by decide) (by cases filter <;> simp)
  | cons j js => exact readable_rowsPieces hx hjobs h

theorem readable_dlqTable (hx : x.Plain) (hjobs : ∀ j ∈ jobs, j.Clean) :
    ∀ p ∈ dlqTable x jobs, Readable p := by
  cases jobs with
  | nil => exact readable_empty (by decide) (by decide)
  | cons j js =>
    intro p hp
    obtain ⟨d, hd, hp⟩ := List.mem_flatMap.mp hp
    exact readable_dlqPieces hx (hjobs d hd) p hp

/-! ### The rows as a browser has them -/

/-- Attributes as they are read. -/
def shownAttrs (attrs : List (String × String)) : List (List Char × List Char) :=
  attrs.map (fun (attr, v) => (attr.toList, newlines v.toList))

def shownCell (c : List (String × String) × String) : Cell :=
  ⟨shownAttrs c.1, (newlines c.2.toList).map .char⟩

def jobShown (x : PageTexts) (changed : Bool) (j : JobView) : Row :=
  ⟨shownAttrs (rowAttrs changed), (jobCells x j).map shownCell⟩

/-- The cell with the button that `onDlqClick` takes the id from. -/
def shownButton (id : String) : Cell :=
  ⟨[], .tag (.start "button".toList (shownAttrs [("data-retry", id)])) ::
    ("retry".toList.map .char ++ [.tag (endTag "button")])⟩

def dlqShown (x : PageTexts) (j : JobView) : Row :=
  ⟨[], (dlqCells x j).map shownCell ++ [shownButton (x.id j.id)]⟩

/-- A table without jobs. -/
def noneShown (columns text : String) : Row :=
  ⟨[], [shownCell ([("colspan", columns), ("class", "empty")], text)]⟩

/-- The rows of `jobs`, drawn after those of `h`: a row flashes if its job was last
drawn with another `updated_at`. -/
def rowsShown (x : PageTexts) : List JobView → List JobView → List Row
  | _, [] => []
  | h, j :: js => jobShown x (changedSince x (lastOf x h) j) j :: rowsShown x (j :: h) js

def jobsShown (x : PageTexts) (filter : Option JobStatus) (h : List JobView) :
    List JobView → List Row
  | [] => [noneShown "8" ("no jobs" ++ if filter.isSome then " with this status" else " yet")]
  | jobs => rowsShown x h jobs

def dlqsShown (x : PageTexts) : List JobView → List Row
  | [] => [noneShown "6" "empty"]
  | jobs => jobs.map (dlqShown x)

theorem content_append (ps qs : List Piece) : content (ps ++ qs) = content ps ++ content qs :=
  List.flatMap_append

theorem content_piece (s : String) (t : Tag) (ps : List Piece) :
    content ((piece s t :: ps).map normal) =
      (newlines s.toList).map .char ++ .tag t.normal :: content (ps.map normal) := by
  rw [List.map_cons, content, List.flatMap_cons, List.append_assoc]
  rfl

theorem normal_startTag (name : String) (attrs : List (String × String)) :
    (startTag name attrs).normal = .start name.toList (shownAttrs attrs) := by
  rw [startTag, Tag.normal, List.map_map]
  rfl

/-- **Cells as they are read.** -/
theorem content_cells {pad : String} (hpad : newlines pad.toList = pad.toList)
    (cells : List (List (String × String) × String)) :
    content ((cells.flatMap (fun c => cell pad c.1 c.2)).map normal) =
      (cells.map shownCell).flatMap (Cell.tokens pad.toList) := by
  induction cells with
  | nil => rfl
  | cons c cs ih =>
    rw [List.flatMap_cons, List.map_append, content_append, ih, List.map_cons, List.flatMap_cons]
    congr 1
    rw [cell, content_piece, content_piece, normal_startTag, hpad]
    rfl

theorem content_jobPieces (x : PageTexts) (changed : Bool) (j : JobView) :
    content ((jobPieces x changed j).map normal) =
      (jobShown x changed j).tokens "\n    ".toList "\n  ".toList := by
  have hpad : newlines "\n    ".toList = "\n    ".toList := by decide
  have hend : newlines "\n  ".toList = "\n  ".toList := by decide
  rw [jobPieces, content_piece, normal_startTag, List.map_append, content_append,
    content_cells hpad, content_piece, hend]
  rfl

theorem content_dlqPieces (x : PageTexts) (j : JobView) :
    content ((dlqPieces x j).map normal) =
      (dlqShown x j).tokens "\n            ".toList "\n          ".toList := by
  have hpad : newlines "\n            ".toList = "\n            ".toList := by decide
  have hend : newlines "\n          ".toList = "\n          ".toList := by decide
  have hbutton : content ((buttonPieces "\n            " (x.id j.id)).map normal) =
      (shownButton (x.id j.id)).tokens "\n            ".toList := by
    rw [buttonPieces, content_piece, content_piece, content_piece, content_piece, normal_startTag,
      normal_startTag, hpad]
    rfl
  rw [dlqPieces, content_piece, normal_startTag, List.map_append, content_append,
    content_cells hpad, List.map_append, content_append, hbutton, content_piece, hend, dlqShown,
    Row.tokens, List.flatMap_append, List.flatMap_singleton]
  simp [shownAttrs, endTag, Tag.normal, content, newlines]

theorem content_rowsPieces (x : PageTexts) (h jobs : List JobView) :
    content ((rowsPieces x h jobs).map normal) =
      (rowsShown x h jobs).flatMap (Row.tokens "\n    ".toList "\n  ".toList) := by
  induction jobs generalizing h with
  | nil => rfl
  | cons j js ih =>
    rw [rowsPieces, List.map_append, content_append, content_jobPieces, ih, rowsShown,
      List.flatMap_cons]

theorem closed_shownCell (c : List (String × String) × String) : (shownCell c).Closed := by
  intro t ht
  obtain ⟨_, -, rfl⟩ := List.mem_map.mp ht
  rfl

theorem closed_cells (cells : List (List (String × String) × String)) :
    ∀ c ∈ cells.map shownCell, c.Closed := by
  intro c hc
  obtain ⟨_, -, rfl⟩ := List.mem_map.mp hc
  exact closed_shownCell _

theorem closed_shownButton (id : String) : (shownButton id).Closed := by
  intro t ht
  rw [shownButton, List.mem_cons, List.mem_append, List.mem_singleton] at ht
  rcases ht with rfl | ht | rfl
  · exact (by decide : (Token.tag (.start "button".toList [])).ofTable = false)
  · obtain ⟨_, -, rfl⟩ := List.mem_map.mp ht
    rfl
  · decide

theorem closed_rowsShown (x : PageTexts) (h jobs : List JobView) :
    ∀ row ∈ rowsShown x h jobs, ∀ c ∈ row.cells, c.Closed := by
  induction jobs generalizing h with
  | nil => exact fun _ hrow => absurd hrow List.not_mem_nil
  | cons j js ih =>
    rw [rowsShown, List.forall_mem_cons]
    exact ⟨closed_cells _, ih _⟩

theorem rows_none (columns text : String) :
    rows? (content ([piece "" (startTag "tr" []),
      piece "" (startTag "td" [("colspan", columns), ("class", "empty")]),
      piece text (endTag "td"), piece "" (endTag "tr")].map normal)) =
      some [noneShown columns text] := by
  have hclosed : ∀ row ∈ [noneShown columns text], ∀ c ∈ row.cells, c.Closed := by
    intro row hrow c hc
    rw [List.mem_singleton.mp hrow] at hc
    rw [List.mem_singleton.mp hc]
    exact closed_shownCell _
  have hrows : rows? ([noneShown columns text].flatMap (Row.tokens [] [])) =
      some [noneShown columns text] := rows_tokens rfl rfl hclosed
  rw [← hrows, content_piece, content_piece, content_piece, content_piece, normal_startTag,
    normal_startTag]
  congr 1
  simp [Row.tokens, Cell.tokens, noneShown, shownCell, shownAttrs, endTag, Tag.normal, content,
    newlines]

theorem rows_jobsTable (x : PageTexts) (filter : Option JobStatus) (h jobs : List JobView) :
    rows? (content ((jobsTable x filter h jobs).map normal)) =
      some (jobsShown x filter h jobs) := by
  cases jobs with
  | nil => exact rows_none _ _
  | cons j js =>
    have htable : jobsTable x filter h (j :: js) = rowsPieces x h (j :: js) := rfl
    rw [htable, content_rowsPieces]
    exact rows_tokens (by decide) (by decide) (closed_rowsShown x h (j :: js))

theorem rows_dlqTable (x : PageTexts) (jobs : List JobView) :
    rows? (content ((dlqTable x jobs).map normal)) = some (dlqsShown x jobs) := by
  cases jobs with
  | nil => exact rows_none _ _
  | cons j js =>
    have htable : content ((dlqTable x (j :: js)).map normal) = ((j :: js).map (dlqShown x)).flatMap
        (Row.tokens "\n            ".toList "\n          ".toList) := by
      show content (((j :: js).flatMap (dlqPieces x)).map normal) = _
      rw [List.map_flatMap, content, List.flatMap_assoc, List.flatMap_map]
      exact List.flatMap_congr (fun d _ => content_dlqPieces x d)
    rw [htable]
    refine rows_tokens (by decide) (by decide) (fun row hrow c hc => ?_)
    obtain ⟨d, -, rfl⟩ := List.mem_map.mp hrow
    rcases List.mem_append.mp hc with hc | hc
    · exact closed_cells _ c hc
    · rw [List.mem_singleton.mp hc]
      exact closed_shownButton _

/-- **The tables show the jobs.**  However often the jobs table has been drawn, a browser
has of the text that is then assigned to it a row for each job, in their order, with the
data of the job in its cells and titles, whatever their characters, and a flash for each
job that was last drawn with another `updated_at`; and of the text of the table of dead
letters a row for each of them, with the job's id on its button. -/
theorem tables_shown (hx : x.Plain) (pages : List (Option JobStatus × List JobView))
    (filter : Option JobStatus) {jobs dead : List JobView} (hjobs : ∀ j ∈ jobs, j.Clean)
    (hdead : ∀ j ∈ dead, j.Clean) :
    (read? (renderJobs x filter (drawAll x pages) jobs).2.toList).bind rows? =
      some (jobsShown x filter (drawn pages) jobs) ∧
    (read? (renderDlq x dead).2.toList).bind rows? = some (dlqsShown x dead) := by
  rw [drawAll_eq hx, toList_renderJobs hx, toList_renderDlq hx,
    read_print (readable_jobsTable hx filter _ hjobs), read_print (readable_dlqTable hx hdead)]
  exact ⟨rows_jobsTable x filter _ jobs, rows_dlqTable x dead⟩

/-- What a page may get as text. -/
def plainTexts : PageTexts where
  id _ := "7f-0"
  iso time := if time = 0 then "0" else "1"
  locale _ := "12:30"

/-- A job whose recipient is markup, with a line break of two characters. -/
def markupView : JobView where
  id := 7
  recipient := "<b>&\r\n"
  channel := .email
  priority := .high
  status := .deadLettered
  attemptCount := 5
  maxAttempts := 5
  sendAt := 0
  sentAt := none
  errorMessage := some "\""
  updatedAt := 0

/-- The job is drawn again with another `updated_at`. -/
theorem tables_shown_markup : ∃ row,
    (read? (renderJobs plainTexts none (drawAll plainTexts [(none, [markupView])])
      [{ markupView with updatedAt := 1 }]).2.toList).bind rows? = some [row] ∧
    row.attrs = [("class".toList, "flash".toList)] ∧
    row.cells[1]? = some ⟨[("title".toList, "<b>&\n".toList)], "<b>&\n".toList.map .char⟩ := by
  have hid : "7f-0".toList.all nameChar = true := by decide
  have hlocale : PlainText "12:30" := plain_of_all (by decide)
  have hview : ∀ j ∈ [{ markupView with updatedAt := 1 }], j.Clean := by
    intro j hj
    rw [List.mem_singleton.mp hj]
    exact ⟨by decide, by decide⟩
  have hx : plainTexts.Plain := ⟨fun _ => hid, fun _ => hlocale⟩
  have hshown := (tables_shown hx [(none, [markupView])] none hview hview).1
  exact ⟨_, hshown, by decide +kernel, by decide +kernel⟩

end NotifyQueue
