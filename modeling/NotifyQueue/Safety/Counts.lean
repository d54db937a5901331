import NotifyQueue.Model.Views
import NotifyQueue.Safety.Letters

/-!
# The counts of `/metrics`

Every event that changes the status of a job tells from which and to which, and
nothing else changes one.  So for each job the number of times it has entered a
status, less the number of times it has left it, says whether it has the status
now (`Effect.counted`); over all jobs that is the count `metrics` shows, in
every run (`metrics_follow`).  `failed` is never entered, and with `created`
alone the same argument counts the rows.
-/

namespace NotifyQueue

open KeyedTable

/-- The status in which an event finds its job, if there is one yet, and the one
in which it leaves it. -/
def Event.move? : Event → Option (Option JobStatus × JobStatus)
  | .created _ => some (none, .pending)
  | .promoted _ => some (some .pending, .queued)
  | .claimed _ _ => some (some .queued, .claimed)
  | .sent _ _ => some (some .claimed, .sent)
  | .retried _ _ | .deferred _ _ | .reclaimed _ => some (some .claimed, .pending)
  | .deadLettered _ status _ => some (status, .deadLettered)
  | .replayed _ => some (some .deadLettered, .pending)
  | .refused _ _ | .delivered _ _ | .lost _ _ | .dispatched _ _ => none

def Event.enters (status : JobStatus) (e : Event) : Bool :=
  e.move?.any (fun m => decide (m.2 = status))

def Event.exits (status : JobStatus) (e : Event) : Bool :=
  e.move?.any (fun m => decide (m.1 = some status))

def Event.creates (e : Event) : Bool := e.move?.any (fun m => decide (m.1 = none))

/-- One for a row with `p`, nothing otherwise. -/
def Job.tally (p : Job → Bool) (row : Option Job) : Nat := if row.any p then 1 else 0

/-- The rows with the status. -/
def Job.has (status : JobStatus) (r : Job) : Bool := decide (r.status = status)

variable {cfg : Settings} {s t : State} {a : Action} {es h e : List Event} {J : JobId}
  {before after : Option Job} {ls : List DeadLetter} {status : JobStatus}

theorem Event.job_of_move {x : Event} {m : Option JobStatus × JobStatus} (hm : x.move? = some m) :
    ∃ J, x.job? = some J := by
  cases x with
  | refused | delivered | lost | dispatched => cases hm
  | _ => exact ⟨_, rfl⟩

/-! ### One job -/

theorem counted_move {r r' : Job} {x : Event} (hm : x.move? = some (some r.status, r'.status)) :
    Job.tally (Job.has status) (some r') + [x].countP (Event.exits status) =
      Job.tally (Job.has status) (some r) + [x].countP (Event.enters status) := by
  simp only [Job.tally, Job.has, Option.any_some, List.countP_singleton, Event.exits, Event.enters,
    hm, Option.some.injEq]
  exact Nat.add_comm _ _

/-- **What a step counts for a job**, status by status. -/
theorem Effect.counted (hE : Effect cfg s J a before after e ls) (status : JobStatus) :
    Job.tally (Job.has status) after + e.countP (Event.exits status) =
      Job.tally (Job.has status) before + e.countP (Event.enters status) := by
  cases hE with
  | stay | deliver => rfl
  | create =>
    simp only [Job.tally, Job.has, Option.any_some, Option.any_none, List.countP_singleton,
      Event.exits, Event.enters, Event.move?, insertJob, decide_eq_true_eq, reduceCtorEq,
      decide_false, Bool.false_eq_true, if_false]
    omega
  | beat hc => rfl
  | promote _ _ h | claim _ h | send _ _ h | retry _ _ _ h | defer _ _ h | reclaim _ _ h
  | replay h =>
    exact counted_move (by rw [h]; rfl)
  | giveUp | bury => exact counted_move rfl

theorem Effect.counted_rows (hE : Effect cfg s J a before after e ls) :
    Job.tally (fun _ => true) after = Job.tally (fun _ => true) before +
      e.countP Event.creates := by
  cases hE with
  | create | stay | deliver | beat => rfl
  | giveUp | bury => rfl
  | _ => rfl

/-! ### All jobs -/

/-- What every step counts right for each job the run counts right for all. -/
theorem run_tally (p : Job → Bool) (ins outs : Event → Bool)
    (hins : ∀ x, ins x = true → ∃ m, x.move? = some m)
    (houts : ∀ x, outs x = true → ∃ m, x.move? = some m)
    (heffect : ∀ {s a J before after e ls}, Effect cfg s J a before after e ls →
      Job.tally p after + e.countP outs = Job.tally p before + e.countP ins)
    (hr : Lts.Run (system cfg) always h s) :
    s.db.jobs.rows.countP p + h.countP outs = h.countP ins := by
  -- job by job
  have hjob : ∀ J, Job.tally p (s.row J) + (jobEvents J h).countP outs =
      (jobEvents J h).countP ins := by
    intro J
    refine hr.invariant (I := fun h s => Job.tally p (s.row J) + (jobEvents J h).countP outs =
      (jobEvents J h).countP ins) ?_ ?_
    · intro s hi
      rw [row_initial hi]
      rfl
    · intro h s a t es _ ih _ hstep
      obtain ⟨before, after, e, ls, hb, ha, he, -, hE⟩ := step_effect hstep J
      have hcount := heffect hE
      rw [jobEvents_append, List.countP_append, List.countP_append, ha, he]
      rw [hb] at ih
      omega
  -- and over all jobs there are
  let ks : Finset JobId := (h.filterMap Event.job?).toFinset ∪
    (s.db.jobs.rows.map Job.id).toFinset
  have hevents : ∀ {q : Event → Bool}, (∀ x, q x = true → ∃ m, x.move? = some m) →
      ∑ J ∈ ks, (jobEvents J h).countP q = h.countP q := by
    intro q hq
    refine Lts.sum_countP_filter (fun x hx hqx => ?_)
    obtain ⟨m, hm⟩ := hq x hqx
    obtain ⟨J, hJ⟩ := Event.job_of_move hm
    refine ⟨J, Finset.mem_union_left _ ?_, hJ⟩
    exact List.mem_toFinset.mpr (List.mem_filterMap.mpr ⟨x, hx, hJ⟩)
  have hrows : ∑ J ∈ ks, Job.tally p (s.row J) = s.db.jobs.rows.countP p := by
    refine Table.sum_find?_any (t := s.db.jobs) (fun J r hJ => Finset.mem_union_right _ ?_)
    refine List.mem_toFinset.mpr (List.mem_map.mpr ⟨r, Table.mem_of_find? hJ, ?_⟩)
    exact Table.key_of_find? hJ
  rw [← hrows, ← hevents hins, ← hevents houts, ← Finset.sum_add_distrib]
  exact Finset.sum_congr rfl (fun J _ => hjob J)

theorem run_countOf (hr : Lts.Run (system cfg) always h s) (status : JobStatus) :
    s.db.countOf status + h.countP (Event.exits status) = h.countP (Event.enters status) := by
  refine run_tally (Job.has status) _ _ (fun x hx => ?_) (fun x hx => ?_)
    (fun hE => hE.counted status) hr
  · obtain ⟨m, hm, -⟩ := (Option.any_eq_true _ _).mp hx
    exact ⟨m, hm⟩
  · obtain ⟨m, hm, -⟩ := (Option.any_eq_true _ _).mp hx
    exact ⟨m, hm⟩

theorem run_length (hr : Lts.Run (system cfg) always h s) :
    s.db.jobs.rows.length = h.countP Event.creates := by
  have hcount := run_tally (fun _ => true) Event.creates (fun _ => false)
    (fun x hx => ?_) (fun x hx => by cases hx) (fun hE => ?_) hr
  · simpa using hcount
  · obtain ⟨m, hm, -⟩ := (Option.any_eq_true _ _).mp hx
    exact ⟨m, hm⟩
  · rw [hE.counted_rows]
    simp

theorem run_failed (hr : Lts.Run (system cfg) always h s) : s.db.countOf .failed = 0 := by
  have hnone : h.countP (Event.enters .failed) = 0 := by
    refine List.countP_eq_zero.mpr (fun x _ => ?_)
    cases x <;> simp [Event.enters, Event.move?]
  have hcount := run_countOf hr .failed
  omega

/-- **`metrics` follows the history** in every run: a status counts the jobs that
have entered it less those that have left it, `failed` counts none, and all
together count the jobs created. -/
theorem metrics_follow (hr : Lts.Run (system cfg) always h s) :
    (∀ status, metrics s.db status + h.countP (Event.exits status) =
      h.countP (Event.enters status)) ∧
    metrics s.db .failed = 0 ∧
    (jobStatuses.map (metrics s.db)).sum = h.countP Event.creates := by
  refine ⟨fun status => ?_, ?_, ?_⟩
  · rw [metrics_eq]
    exact run_countOf hr status
  · rw [metrics_eq]
    exact run_failed hr
  · rw [sum_metrics]
    exact run_length hr

/-- Jobs `7` and `8` are created; job `7` has one attempt, which fails. -/
theorem metrics_follow_failure : ∃ h s, Lts.Run (system { maxAttempts := 1 }) always h s ∧
    jobStatuses.map (metrics s.db) = [1, 0, 0, 0, 0, 1] ∧
    metrics s.db .deadLettered + h.countP (Event.exits .deadLettered) =
      h.countP (Event.enters .deadLettered) := by
  obtain ⟨s, h, hr, hf⟩ := Lts.run_of_replay (system { maxAttempts := 1 }) always
    (.createJob 7 plainJob :: promotion 0 7 ++ claim 1 ++
      [.createJob 8 plainJob, work 1, work 1, work 1, work 1])
    (fun x => jobStatuses.map (metrics x.1.db)) [1, 0, 0, 0, 0, 1] initial_empty
    (by decide +kernel)
  exact ⟨h, s, hr, hf, (metrics_follow hr).1 .deadLettered⟩

end NotifyQueue
