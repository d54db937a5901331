import NotifyQueue.Job.Clocks
import NotifyQueue.Job.Copies

/-!
# The shape of a row

Every statement sets its own subset of the columns.  `Job.Shape` is what they
keep together: which columns go with which status.  `Job.Timely` is the same
for the due time: a job that has left `pending` was due when it did, and its
`send_at` is not written again before it is back in `pending`.

Both are preserved by every entry of `Effect`, whoever makes it and from
whatever copy of the row, so they need no guard; the second needs a clock that
does not go back.
-/

namespace NotifyQueue

/-- The columns that go with a status. -/
structure Job.Shape (r : Job) : Prop where
  notFailed : r.status ≠ .failed
  claimed : r.status = .claimed →
    r.workerId ≠ none ∧ r.claimedAt ≠ none ∧ r.heartbeatAt ≠ none
  unclaimed : r.status = .pending ∨ r.status = .queued ∨ r.status = .deadLettered →
    r.workerId = none ∧ r.claimedAt = none ∧ r.heartbeatAt = none
  sent : r.status = .sent → r.workerId ≠ none ∧ r.sentAt ≠ none
  failedAt : r.failedAt ≠ none ↔ r.status = .deadLettered

variable {cfg : Settings} {s t : State} {a : Action} {es h : List Event} {J : JobId}
  {before after : Option Job} {e : List Event} {ls : List DeadLetter}

/-- A row that is waiting: no owner, no times of a claim, no failure. -/
theorem Job.shape_waiting {r : Job} (hs : r.status = .pending ∨ r.status = .queued)
    (hu : r.workerId = none ∧ r.claimedAt = none ∧ r.heartbeatAt = none)
    (hf : r.failedAt = none) : r.Shape := by
  have hne : ∀ status : JobStatus, status ≠ .pending → status ≠ .queued → r.status ≠ status := by
    rintro status hp hq rfl
    rcases hs with hs | hs
    · exact hp hs
    · exact hq hs
  refine ⟨hne _ (by decide) (by decide), fun hc => ?_, fun _ => hu, fun hc => ?_, ?_⟩
  · exact absurd hc (hne _ (by decide) (by decide))
  · exact absurd hc (hne _ (by decide) (by decide))
  · exact ⟨fun h => absurd hf h, fun hd => absurd hd (hne _ (by decide) (by decide))⟩

theorem Job.Shape.failedAt_eq_none {r : Job} (h : r.Shape) (hd : r.status ≠ .deadLettered) :
    r.failedAt = none := by
  by_contra hf
  exact hd (h.failedAt.mp hf)

/-- A row as `MARK_DEAD_LETTERED` leaves it, from whatever status. -/
theorem Job.shape_markDeadLettered (now : Time) (error : Option String) (id : JobId) (n : Nat)
    (expected : Option WorkerId) (r : Job) :
    ((markDeadLettered now error id n expected).set r).Shape where
  notFailed h := by cases h
  claimed h := by cases h
  unclaimed _ := ⟨rfl, rfl, rfl⟩
  sent h := by cases h
  failedAt := ⟨fun _ => rfl, fun _ => Option.some_ne_none _⟩

/-- **One step keeps the columns in line with the status.** -/
theorem Effect.shape (hE : Effect cfg s J a before after e ls)
    (h : ∀ r, before = some r → r.Shape) : ∀ r, after = some r → r.Shape := by
  intro r' hr'
  cases hE with
  | stay | deliver => exact h r' hr'
  | create | replay =>
    cases hr'
    exact Job.shape_waiting (Or.inl rfl) ⟨rfl, rfl, rfl⟩ rfl
  | @promote k env r _ _ hp =>
    cases hr'
    have hr := h r rfl
    exact Job.shape_waiting (Or.inr rfl) (hr.unclaimed (Or.inl hp))
      (hr.failedAt_eq_none (by rw [hp]; decide))
  | @claim w env rest r _ hq =>
    cases hr'
    have hf : r.failedAt = none := (h r rfl).failedAt_eq_none (by rw [hq]; decide)
    exact ⟨by simp [claimQueuedJob], fun _ => by simp [claimQueuedJob],
      by simp [claimQueuedJob], by simp [claimQueuedJob], by simp [claimQueuedJob, hf]⟩
  | @beat w r hc hw =>
    cases hr'
    have hr := h r rfl
    exact ⟨hr.notFailed, fun hc => ⟨(hr.claimed hc).1, (hr.claimed hc).2.1, by
      simp [updateHeartbeat]⟩, by simp [updateHeartbeat, hc], hr.sent, hr.failedAt⟩
  | @send w env job r _ _ hc _ hw =>
    cases hr'
    have hf : r.failedAt = none := (h r rfl).failedAt_eq_none (by rw [hc]; decide)
    exact ⟨by simp [markSent], by simp [markSent], by simp [markSent],
      fun _ => ⟨hw, by simp [markSent]⟩, by simp [markSent, hf]⟩
  | retry _ _ _ hc | defer _ _ hc | reclaim _ _ hc =>
    cases hr'
    exact Job.shape_waiting (Or.inl rfl) ⟨rfl, rfl, rfl⟩
      ((h _ rfl).failedAt_eq_none (by rw [hc]; decide))
  | giveUp | bury =>
    cases hr'
    exact Job.shape_markDeadLettered _ _ _ _ _ _

theorem run_shape {ok : State → Action → Bool} (hr : Lts.Run (system cfg) ok h s) (J : JobId)
    (r : Job) (hrow : s.row J = some r) : r.Shape := by
  refine run_rows (P := fun _ _ r => r.Shape) hr (fun h s a t es _ ih _ hstep => ?_) r hrow
  obtain ⟨ls, hE, -⟩ := step_affects hstep J
  exact hE.shape ih

/-- **Every row keeps its shape**, in every run. -/
theorem row_shape {ok : State → Action → Bool} (hr : Lts.Run (system cfg) ok h s) (J : JobId)
    (r : Job) (hrow : s.row J = some r) : r.Shape := run_shape hr J r hrow

/-- Worker `1` has claimed job `7`. -/
theorem row_shape_claimed : ∃ h s r, Lts.Run (system {}) always h s ∧ s.row 7 = some r ∧
    r.status = .claimed ∧ r.Shape := by
  obtain ⟨s, h, hr, hf⟩ := Lts.run_of_replay (system {}) always
    (.createJob 7 plainJob :: promotion 0 7 ++ claim 1)
    (fun p => (p.1.row 7).map Job.status) (some .claimed) initial_empty (by decide +kernel)
  obtain ⟨r, hr7, hc⟩ := Option.map_eq_some_iff.mp hf
  exact ⟨h, s, r, hr, hr7, hc, row_shape hr 7 r hr7⟩

/-! ### Never early -/

/-- A job that has left `pending` is due, up to the lookahead. -/
def Job.Timely (cfg : Settings) (now : Time) (r : Job) : Prop :=
  r.status = .queued ∨ r.status = .claimed ∨ r.status = .sent →
    r.sendAt ≤ now + cfg.schedulerLookaheadSeconds * second

theorem Job.Timely.later {now now' : Time} {r : Job} (h : r.Timely cfg now) (hn : now ≤ now') :
    r.Timely cfg now' := fun hs => (h hs).trans (Int.add_le_add_right hn _)

theorem timely_step (hok : forward s a = true) (hstep : step cfg s a = some (t, es))
    (h : ∀ r, s.row J = some r → r.Timely cfg s.db.now) :
    ∀ r, t.row J = some r → r.Timely cfg t.db.now := by
  intro r' hr'
  refine Job.Timely.later ?_ (now_le hstep hok)
  obtain ⟨before, after, e, ls, hb, ha, -, -, hE⟩ := step_effect hstep J
  cases ha.symm.trans hr'
  cases hE with
  | stay | deliver => exact h r' hb
  | @promote k env r hpc hJ =>
    obtain ⟨-, hdue⟩ := due_of_promoting hstep hpc hJ hb
    exact fun _ => hdue
  | claim _ hq =>
    have hr := h _ hb (Or.inl hq)
    exact fun _ => hr
  | beat hc | send _ _ hc =>
    have hr := h _ hb (Or.inr (Or.inl hc))
    exact fun _ => hr
  | create | retry | defer | giveUp | bury | reclaim | replay => rintro (hs | hs | hs) <;> cases hs

/-- **No job is early.**  With a clock that does not go back, a job that is
queued, claimed or sent has reached its `send_at`, up to the lookahead; so had
every job at the step that claims it or marks it sent. -/
theorem never_early (hr : Lts.Run (system cfg) forward h s) (J : JobId) :
    (∀ r, s.row J = some r → r.status = .queued ∨ r.status = .claimed ∨ r.status = .sent →
      r.sendAt ≤ s.db.now + cfg.schedulerLookaheadSeconds * second) ∧
    (∀ a t es w, step cfg s a = some (t, es) → .claimed w J ∈ es ∨ .sent w J ∈ es →
      ∃ r, s.row J = some r ∧
        r.sendAt ≤ s.db.now + cfg.schedulerLookaheadSeconds * second) := by
  have htimely : ∀ r, s.row J = some r → r.Timely cfg s.db.now :=
    run_rows (P := fun _ s r => r.Timely cfg s.db.now) hr
      (fun _ _ _ _ _ _ ih hok hstep => timely_step hok hstep ih)
  refine ⟨htimely, fun a t es w hstep hmem => ?_⟩
  rcases hmem with hcl | hse
  · obtain ⟨r, -, hrow, hq, -⟩ := row_of_claimed hstep hcl
    exact ⟨r, hrow, htimely r hrow (Or.inl hq)⟩
  · obtain ⟨r, -, hrow, hc, -⟩ := row_of_leaves hstep hse rfl rfl
    exact ⟨r, hrow, htimely r hrow (Or.inr (Or.inl hc))⟩

/-- Job `7`, due at the second `3`, is promoted at the second `0` and claimed. -/
theorem never_early_lookahead : ∃ h s r, Lts.Run (system {}) forward h s ∧
    s.row 7 = some r ∧ r.status = .claimed ∧ r.sendAt = 3 * second ∧
    r.sendAt ≤ s.db.now + 5 * second := by
  obtain ⟨s, h, hr, hf⟩ := Lts.run_of_replay (system {}) forward
    (.createJob 7 { plainJob with sendAt := 3 * second } :: promotion 0 7 ++ claim 1)
    (fun p => (p.1.row 7).map (fun r => (r.status, r.sendAt))) (some (.claimed, 3 * second))
    initial_empty (by decide +kernel)
  obtain ⟨r, hr7, hst⟩ := Option.map_eq_some_iff.mp hf
  obtain ⟨hc, hat⟩ := Prod.mk.inj hst
  exact ⟨h, s, r, hr, hr7, hc, hat, (never_early hr 7).1 r hr7 (Or.inr (Or.inl hc))⟩

end NotifyQueue
