import NotifyQueue.Job.Copies

/-!
# Dead letters agree with the job

The row that `dead_letter` inserts is made from a copy of the job, the row of
`jobs` from the arguments of the call.  The columns a letter copies never
change and the rest are the same arguments, so whoever dead-letters a job last,
worker or recovery, leaves a letter that agrees with the row.

A call that expects no owner is made from a copy of the job, and there may be
several: the rows that schedulers have recovered at the cap, and the rows that
workers have read after their claim was taken away.  `buriesAlone` is the condition
that a call takes effect only when nobody else holds such a copy.  Then the job of a
copy is never dead-lettered (`Unburied`), and each dead-lettering writes one letter.
-/

namespace NotifyQueue

open KeyedTable

/-- `d` says of the job what its row `r` says. -/
structure DeadLetter.Matches (d : DeadLetter) (r : Job) : Prop where
  jobId : d.jobId = r.id
  recipient : d.recipient = r.recipient
  channel : d.channel = r.channel
  payload : d.payload = r.payload
  attemptCount : d.attemptCount = r.attemptCount
  lastError : d.lastError = r.errorMessage

variable {cfg : Settings} {s t : State} {a : Action} {es h : List Event} {J : JobId}
  {before after : Option Job} {e : List Event} {ls : List DeadLetter}

/-- The letter written along with `MARK_DEAD_LETTERED`, from a copy of the row. -/
theorem matches_of_fixed {r : Job} {job : LetterFields} (hf : r.letterFields = job) (now : Time)
    (error : Option String) (n : Nat) (expected : Option WorkerId) :
    (insertDeadLetter job n error).Matches ((markDeadLettered now error J n expected).set r) := by
  subst hf
  exact ⟨rfl, rfl, rfl, rfl, rfl, rfl⟩

/-- The job's latest letter agrees with its row, once it is dead-lettered. -/
def LetterAgrees (row : Option Job) (letters : List DeadLetter) : Prop :=
  ∀ r, row = some r → r.status = .deadLettered → ∃ d, letters.getLast? = some d ∧ d.Matches r

theorem Effect.letterAgrees (hE : Effect cfg s J a before after e ls) (hk : Known s J)
    (hrow : s.row J = before) (h : LetterAgrees before (s.letters J)) :
    LetterAgrees after (s.letters J ++ ls) := by
  intro r' hr' hd
  cases hE with
  | stay | deliver =>
    rw [List.append_nil]
    exact h r' hr' hd
  | create | promote | claim | send | retry | defer | reclaim | replay =>
    cases hr'
    cases hd
  | beat hc =>
    cases hr'
    cases hc.symm.trans hd
  | @giveUp w env job r error hpc hid =>
    cases hr'
    subst hid
    obtain ⟨r₀, hr₀, hf⟩ := hk.snapshot w job (by rw [State.stake, hpc]; rfl)
    cases hrow.symm.trans hr₀
    exact ⟨_, List.getLast?_concat, matches_of_fixed (congrArg Prod.fst hf) _ _ _ _⟩
  | @bury k env row rest r hpc hid =>
    cases hr'
    obtain ⟨r₀, hr₀, hf⟩ := hk.recovered k row (recovered_of_burying hpc) hid
    cases hrow.symm.trans hr₀
    exact ⟨_, List.getLast?_concat, matches_of_fixed (congrArg Prod.fst hf) _ _ _ _⟩

/-- **In every run the latest letter of a dead-lettered job agrees with it.** -/
theorem run_letterAgrees {ok : State → Action → Bool} (hr : Lts.Run (system cfg) ok h s)
    (J : JobId) : LetterAgrees (s.row J) (s.letters J) := by
  refine hr.invariant (I := fun _ s => LetterAgrees (s.row J) (s.letters J)) (fun s hi => ?_)
    (fun h s a t es hr ih _ hstep => ?_)
  · intro r hrow
    rw [row_initial hi] at hrow
    cases hrow
  · obtain ⟨before, after, e, ls, hb, ha, -, hl, hE⟩ := step_effect hstep J
    rw [ha, hl]
    exact hE.letterAgrees (run_sound hr J).known hb (hb ▸ ih)

theorem deadLetterTxn_unchanged {db : Db} {job : LetterFields} {error : Option String} {n : Nat}
    {expected : Option WorkerId} {cut : Option TxnPoint}
    (h : cut ≠ none ∨ ∀ r, db.row job.id = some r → r.workerId ≠ expected) :
    (deadLetterTxn db job error n expected cut).1 = db := by
  refine deadLetterTxn_not_committed (fun hc => ?_)
  rcases h with h | h
  · obtain ⟨point, rfl⟩ := Option.ne_none_iff_exists'.mp h
    rw [deadLetterTxn_cut] at hc
    cases hc
  · obtain ⟨marked, hm, -⟩ := deadLetterTxn_committed (Prod.ext rfl hc)
    have hk : ∀ r, (markDeadLettered db.now error job.id n expected).applies r = true →
        r.id = job.id := fun r hr => (marks_iff.mp hr).1
    obtain ⟨r, hr, ha, -⟩ := row_of_fetchrow hk hm
    exact h r hr (marks_iff.mp ha).2

/-- An exception in a process, or its death. -/
def Action.aborts : Action → Bool
  | .worker _ (.raise _) | .worker _ .crash | .scheduler _ (.raise _) | .scheduler _ .crash => true
  | _ => false

theorem db_of_aborts (hstep : step cfg s a = some (t, es)) (ha : a.aborts = true) :
    t.db = s.db := by
  cases a with
  | worker w c =>
    cases worker_moves hstep with
    | raise hn => rw [(worker_raise hn).1]
    | crash hsh => rw [hsh]
    | run | beat | loseHeartbeat => cases ha
  | scheduler k c =>
    cases scheduler_moves hstep with
    | raise hn => rw [(scheduler_raise hn).1]
    | crash hsh => rw [hsh]
    | run => cases ha
  | createJob | retryJob | tick | redisFault => cases ha

/-- **A dead-lettered job has a matching letter.**  In every run the latest
letter of a dead-lettered job agrees with its row, and a `dead_letter` call
that is cut short or not fenced in changes neither table. -/
theorem dead_letter_matches (hr : Lts.Run (system cfg) always h s) :
    (∀ J r, s.row J = some r → r.status = .deadLettered →
      ∃ d, (s.letters J).getLast? = some d ∧ d.Matches r) ∧
    (∀ (job : LetterFields) error n expected cut,
      (cut ≠ none ∨ ∀ r, s.row job.id = some r → r.workerId ≠ expected) →
      (deadLetterTxn s.db job error n expected cut).1 = s.db) ∧
    (∀ a t es, a.aborts = true → step cfg s a = some (t, es) → t.db = s.db) :=
  ⟨fun J => run_letterAgrees hr J, fun _ _ _ _ _ => deadLetterTxn_unchanged,
    fun _ _ _ ha hstep => db_of_aborts hstep ha⟩

/-- Job `7` has one attempt, which fails. -/
theorem dead_letter_matches_failure : ∃ h s, Lts.Run (system { maxAttempts := 1 }) always h s ∧
    ∃ r d, s.row 7 = some r ∧ r.status = .deadLettered ∧ (s.letters 7).getLast? = some d ∧
      d.Matches r := by
  obtain ⟨s, h, hr, hf⟩ := Lts.run_of_replay (system { maxAttempts := 1 }) always
    (.createJob 7 plainJob :: promotion 0 7 ++ claim 1 ++ [work 1, work 1, work 1, work 1])
    (fun p => (p.1.row 7).map Job.status) (some .deadLettered) initial_empty (by decide +kernel)
  obtain ⟨r, hr7, hd⟩ := Option.map_eq_some_iff.mp hf
  obtain ⟨d, hlast, hm⟩ := (dead_letter_matches hr).1 7 r hr7 hd
  exact ⟨h, s, hr, r, d, hr7, hd, hlast, hm⟩

/-! ### How many letters -/

/-- One for a dead-lettered row, nothing otherwise. -/
def deadCount (row : Option Job) : Nat :=
  if row.any (fun r => decide (r.status = .deadLettered)) then 1 else 0

/-- A process that calls `dead_letter`. -/
inductive Caller
  | worker (w : WorkerId)
  | scheduler (k : SchedulerId)
deriving DecidableEq

/-- A copy from which a worker may give up expecting no owner: it was read after the
claim was taken away, at the last attempt, and not dead-lettered yet. -/
def lastUnowned (job : Job) : Bool :=
  exhausted job && job.workerId.isNone && decide (job.status ≠ .deadLettered)

/-- The process holds a copy of `J` that may lead to a `dead_letter` call without an
owner: a row recovered at the cap, or such a copy of a worker. -/
def State.mayBury (s : State) (J : JobId) : Caller → Bool
  | .worker w => (s.stake w).any (fun x =>
      decide (x.job = J) && x.snapshot.any lastUnowned)
  | .scheduler k => (s.recovered k).any (fun row => decide (row.id = J) && atCap row)

/-- A `dead_letter` call takes effect only while no other process may dead-letter the
job from a copy without an owner, and no worker gives up from the copy of a job that
was dead-lettered before. -/
def BuriesAlone (s : State) : Action → Prop
  | .worker w (.run _) => ∀ job error, (s.workers w).pc = .failing job error →
      exhausted job = true → job.status ≠ .deadLettered ∧
      ((s.row job.id).map Job.workerId = some job.workerId →
        ∀ p, p ≠ .worker w → s.mayBury job.id p = false)
  | .scheduler k (.run _) => ∀ row rest, s.schedulers k = .burying row rest →
      (s.row row.id).map Job.workerId = some none →
        ∀ p, p ≠ .scheduler k → s.mayBury row.id p = false
  | _ => True

open Classical in
/-- The condition under which letters are counted. -/
noncomputable def buriesAlone (s : State) (a : Action) : Bool := decide (BuriesAlone s a)

theorem buriesAlone_iff : buriesAlone s a = true ↔ BuriesAlone s a := by
  classical
  rw [buriesAlone, decide_eq_true_eq]

theorem deadCount_dead {r : Job} (h : r.status = .deadLettered) : deadCount (some r) = 1 := by
  simp [deadCount, h]

theorem deadCount_alive {r : Job} (h : r.status ≠ .deadLettered) : deadCount (some r) = 0 := by
  simp [deadCount, h]

/-! ### Copies that may lead to a letter -/

theorem mayBury_worker {w : WorkerId} : s.mayBury J (.worker w) = true ↔
    ∃ job, s.stake w = some ⟨J, some job⟩ ∧ lastUnowned job = true := by
  simp only [State.mayBury, Option.any_eq_true, Bool.and_eq_true, decide_eq_true_eq]
  constructor
  · rintro ⟨⟨id, snapshot⟩, hst, rfl, job, hsnap, hl⟩
    cases hsnap
    exact ⟨job, hst, hl⟩
  · rintro ⟨job, hst, hl⟩
    exact ⟨_, hst, rfl, job, rfl, hl⟩

theorem mayBury_scheduler {k : SchedulerId} : s.mayBury J (.scheduler k) = true ↔
    ∃ row ∈ s.recovered k, row.id = J ∧ atCap row = true := by
  simp only [State.mayBury, List.any_eq_true, Bool.and_eq_true, decide_eq_true_eq]

/-- A process that may dead-letter `J` without an owner finds it alive. -/
def Unburied (s : State) (J : JobId) : Prop :=
  ∀ p, s.mayBury J p = true → ∀ r, s.row J = some r → r.status ≠ .deadLettered

theorem pending_of_reclaimed (hstep : step cfg s a = some (t, es))
    (he : jobEvents J es = [.reclaimed J]) {r : Job} (hr : t.row J = some r) :
    r.status = .pending := by
  obtain ⟨before, after, e, ls, hb, ha, he', -, hE⟩ := step_effect hstep J
  have hev := he'.symm.trans he
  cases ha.symm.trans hr
  cases hE <;> cases hev
  rfl

/-- **Where such a copy comes from**: it was there before, and no outcome write has
used it, or it has just been read from a job that is alive. -/
theorem mayBury_step (hstep : step cfg s a = some (t, es)) {p : Caller}
    (hp : t.mayBury J p = true) :
    (s.mayBury J p = true ∧ ∀ w job, p = .worker w → outcome? s a ≠ some (w, job)) ∨
      ∀ r, t.row J = some r → r.status ≠ .deadLettered := by
  cases p with
  | worker w =>
    obtain ⟨job, hst, hl⟩ := mayBury_worker.mp hp
    rcases stake_step hstep hst with ⟨hkept, hno⟩ | ⟨-, hnone, -⟩ | ⟨-, hsnap, hrow, hdb, -⟩
    · refine Or.inl ⟨mayBury_worker.mpr ⟨job, hkept, hl⟩, fun v job' hv => ?_⟩
      cases hv
      exact hno job'
    · cases hnone
    · cases hsnap
      refine Or.inr (fun r hr => ?_)
      rw [State.row, hdb] at hr
      cases hrow.symm.trans hr
      rw [lastUnowned, Bool.and_eq_true] at hl
      exact of_decide_eq_true hl.2
  | scheduler k =>
    obtain ⟨row, hrow, rfl, hcap⟩ := mayBury_scheduler.mp hp
    rcases recovered_step hstep hrow with hkept | ⟨-, -, -, he⟩
    · exact Or.inl ⟨mayBury_scheduler.mpr ⟨row, hkept, rfl, hcap⟩, fun _ _ hv => by cases hv⟩
    · refine Or.inr (fun r hr => ?_)
      rw [pending_of_reclaimed hstep he hr]
      decide

/-- After a `dead_letter` call of a scheduler it has no copy of the job left. -/
theorem mayBury_of_bury (hsd : Sound s J) {k : SchedulerId} {env : Env} {row : RecoveredRow}
    {rest : List RecoveredRow} (hstep : step cfg s (.scheduler k (.run env)) = some (t, es))
    (hpc : s.schedulers k = .burying row rest) : t.mayBury row.id (.scheduler k) = false := by
  rw [← Bool.not_eq_true, mayBury_scheduler, recovered_of_bury hstep hpc]
  rintro ⟨row', hrow', hid, -⟩
  have hn := hsd.once k
  rw [RecoversOnce, hpc, SchedulerPc.recovered, List.map_cons, List.nodup_cons] at hn
  exact hn.1 (List.mem_map.mpr ⟨row', hrow', hid⟩)

/-- One step keeps the jobs alive that somebody may dead-letter without an owner. -/
theorem unburied_step (hsd : Sound s J) (hok : BuriesAlone s a)
    (hstep : step cfg s a = some (t, es)) (hu : Unburied s J) : Unburied t J := by
  intro p hp r' hr'
  obtain ⟨before, after, e, ls, hb, ha, -, -, hE⟩ := step_effect hstep J
  rcases mayBury_step hstep hp with ⟨hold, hno⟩ | hnew
  case inr => exact hnew r' hr'
  cases ha.symm.trans hr'
  cases hE with
  | stay | deliver => exact hu p hold r' hb
  | beat hc =>
    intro hd
    cases hc.symm.trans hd
  | create | promote | claim | send | retry | defer | reclaim | replay =>
    intro hd
    cases hd
  | @giveUp w env job r error hpc hid hx hw =>
    subst hid
    have hne : p ≠ .worker w := fun hp =>
      hno w job hp (by rw [outcome?, hpc]; rfl)
    rw [((hok job error hpc hx).2 (by rw [hb, Option.map_some, hw])) p hne] at hold
    cases hold
  | @bury k env row rest r hpc hid hw =>
    subst hid
    by_cases hk : p = .scheduler k
    · subst hk
      rw [mayBury_of_bury hsd hstep hpc] at hp
      cases hp
    · rw [hok row rest hpc (by rw [hb, Option.map_some, hw]) p hk] at hold
      cases hold

theorem unburied_init (hi : Initial s) (J : JobId) : Unburied s J := by
  intro p hp r hr
  rw [row_initial hi] at hr
  cases hr

theorem run_unburied (hr : Lts.Run (system cfg) buriesAlone h s) (J : JobId) : Unburied s J :=
  hr.invariant (I := fun _ s => Unburied s J) (fun _ hi => unburied_init hi J)
    (fun _ _ _ _ _ hr hu hok hstep =>
      unburied_step (run_sound hr J) (buriesAlone_iff.mp hok) hstep hu)

theorem giveUp_alive (ho : ∀ r, s.row J = some r → r.Owned) (hu : Unburied s J) {w : WorkerId}
    {env : Env} {job r : Job} {error : String} (hok : BuriesAlone s (.worker w (.run env)))
    (hpc : (s.workers w).pc = .failing job error) (hid : job.id = J) (hx : exhausted job = true)
    (hr : s.row J = some r) (hw : r.workerId = job.workerId) : r.status ≠ .deadLettered := by
  intro hd
  have hnone : r.workerId = none :=
    (ho r hr).workerId_eq_none (by rw [hd]; decide) (by rw [hd]; decide)
  refine hu (.worker w) (mayBury_worker.mpr ⟨job, ?_, ?_⟩) r hr hd
  · rw [State.stake, hpc, ← hid]
    rfl
  · simp [lastUnowned, hx, ← hw, hnone, (hok job error hpc hx).1]

theorem bury_alive (hsd : Sound s J) (hu : Unburied s J) {k : SchedulerId} {row : RecoveredRow}
    {rest : List RecoveredRow} {r : Job} (hpc : s.schedulers k = .burying row rest)
    (hid : row.id = J) (hr : s.row J = some r) : r.status ≠ .deadLettered :=
  hu (.scheduler k) (mayBury_scheduler.mpr
    ⟨row, recovered_of_burying hpc, hid, hsd.buries k row rest hpc⟩) r hr

theorem Effect.no_letter (hE : Effect cfg s J a before after e ls) (hsd : Sound s J)
    (hu : Unburied s J) (hb : s.row J = before) (hok : BuriesAlone s a)
    (hd : deadCount before = 1) : ls = [] := by
  cases hE with
  | @giveUp w env job r error hpc hid hx hw =>
    rw [deadCount_alive (giveUp_alive hsd.owned hu hok hpc hid hx hb hw)] at hd
    cases hd
  | @bury k env row rest r hpc hid hw =>
    rw [deadCount_alive (bury_alive hsd hu hpc hid hb)] at hd
    cases hd
  | _ => rfl

/-! ### Replays and letters -/

/-- **What a step adds to the letters of a job**, unless it dead-letters it
twice: the books of letters, replays and the status balance, and a job that is
not dead-lettered gets a letter exactly when it is. -/
theorem Effect.balance (hE : Effect cfg s J a before after e ls)
    (hdead : deadCount before = 1 → ls = []) :
    ls.length + deadCount before = e.count (.replayed J) + deadCount after ∧
      (deadCount before = 0 → ls.length = deadCount after) := by
  cases hE with
  | stay => exact ⟨by simp, fun h => h.symm⟩
  | deliver => exact ⟨by simp, fun h => h.symm⟩
  | create => exact ⟨rfl, fun _ => rfl⟩
  | promote _ _ h | claim _ h | send _ _ h | retry _ _ _ h | defer _ _ h | reclaim _ _ h =>
    rw [deadCount_alive (by rw [h]; decide)]
    exact ⟨rfl, fun _ => rfl⟩
  | beat => exact ⟨rfl, fun h => h.symm⟩
  | @replay r h =>
    rw [deadCount_dead h, List.count_singleton_self]
    exact ⟨rfl, fun h => by cases h⟩
  | giveUp | bury =>
    rw [deadCount_alive (fun h => List.cons_ne_nil _ _ (hdead (deadCount_dead h)))]
    exact ⟨rfl, fun _ => rfl⟩

theorem count_jobEvents (J : JobId) (es : List Event) :
    (jobEvents J es).count (.replayed J) = es.count (.replayed J) :=
  List.count_filter (by simp [Event.job?])

/-- **Letters are replays and the status.** -/
theorem run_balance (hr : Lts.Run (system cfg) buriesAlone h s) (J : JobId) :
    (s.letters J).length = h.count (.replayed J) + deadCount (s.row J) := by
  refine hr.invariant (I := fun h s =>
    (s.letters J).length = h.count (.replayed J) + deadCount (s.row J)) (fun s hi => ?_)
    (fun h s a t es hr ih hok hstep => ?_)
  · rw [letters_initial hi, row_initial hi]
    rfl
  · obtain ⟨before, after, e, ls, hb, ha, he, hl, hE⟩ := step_effect hstep J
    have hdead := hE.no_letter (run_sound hr J) (run_unburied hr J) hb (buriesAlone_iff.mp hok)
    have hbal := (hE.balance hdead).1
    rw [← he, count_jobEvents] at hbal
    rw [hl, ha, List.length_append, List.count_append]
    rw [hb] at ih
    omega

/-- In the runs whose steps meet `ok`, a job has a letter for each replay and
one more while it is dead-lettered; entering `dead_lettered` writes one, and a
dead-lettered job gets none. -/
def LettersCounted (cfg : Settings) (ok : State → Action → Bool) : Prop :=
  ∀ h s J, Lts.Run (system cfg) ok h s →
    (s.letters J).length = h.count (.replayed J) + deadCount (s.row J) ∧
    ∀ a t es, ok s a = true → step cfg s a = some (t, es) →
      (deadCount (s.row J) = 0 → deadCount (t.row J) = 1 →
        (t.letters J).length = (s.letters J).length + 1) ∧
      (deadCount (s.row J) = 1 → t.letters J = s.letters J)

/-- **One letter for each dead-lettering** in every run in which nobody dead-letters a
job while another process may still do so from a copy without an owner. -/
theorem letters_counted (cfg : Settings) : LettersCounted cfg buriesAlone := by
  intro h s J hr
  refine ⟨run_balance hr J, fun a t es hok hstep => ?_⟩
  obtain ⟨before, after, e, ls, hb, ha, -, hl, hE⟩ := step_effect hstep J
  have hdead := hE.no_letter (run_sound hr J) (run_unburied hr J) hb (buriesAlone_iff.mp hok)
  obtain ⟨-, halive⟩ := hE.balance hdead
  rw [hb, ha, hl, List.length_append]
  refine ⟨fun hs ht => ?_, fun hs => ?_⟩
  · rw [halive hs, ht]
  · rw [hdead hs, List.append_nil]

/-- With one attempt a job: a scheduler reclaims job `7` and pauses before its
`dead_letter` call; the job is promoted by another, fails at worker `2` and is
dead-lettered; then the first scheduler goes on. -/
def secondBurial : List Action :=
  .createJob 7 plainJob :: promotion 0 7 ++ claim 1 ++
    [clock (61 * second), schedule 0 { batch := [7] }, schedule 0] ++ promotion 1 7 ++
    claim 2 ++ [work 2, work 2, work 2, work 2, schedule 0]

/-- Job `7` has two letters and was never replayed. -/
theorem not_letters_counted : ¬ LettersCounted { maxAttempts := 1 } always := by
  intro hcounted
  obtain ⟨s, h, hr, hf⟩ := Lts.run_of_replay (system { maxAttempts := 1 }) always secondBurial
    (fun p : State × List Event =>
      ((p.1.letters 7).length, p.2.count (.replayed 7), deadCount (p.1.row 7)))
    (2, 0, 1) initial_empty (by decide +kernel)
  obtain ⟨hletters, hf⟩ := Prod.mk.inj hf
  obtain ⟨hreplays, hdead⟩ := Prod.mk.inj hf
  have hlen := (hcounted h s 7 hr).1
  dsimp only at hletters hreplays hdead
  omega

/-- The processes that take part in a replay. -/
def callers (as : List Action) : List Caller :=
  (as.filterMap Action.worker?).map .worker ++ (as.filterMap Action.scheduler?).map .scheduler

/-- The same condition, of the processes that take part in a replay. -/
def buriesAloneAmong (as : List Action) (s : State) : Action → Bool
  | .worker w (.run _) =>
    match (s.workers w).pc with
    | .failing job _ => !exhausted job || (decide (job.status ≠ .deadLettered) &&
        (callers as).all (fun p => decide (p = .worker w) || !s.mayBury job.id p ||
          decide ((s.row job.id).map Job.workerId ≠ some job.workerId)))
    | _ => true
  | .scheduler k (.run _) =>
    match s.schedulers k with
    | .burying row _ =>
      (callers as).all (fun p => decide (p = .scheduler k) || !s.mayBury row.id p)
    | _ => true
  | _ => true

theorem mayBury_of_bystander {as : List Action} (hb : Bystanders as s) {p : Caller}
    (hp : p ∉ callers as) : s.mayBury J p = false := by
  rw [callers, List.mem_append, List.mem_map, List.mem_map] at hp
  cases p with
  | worker w =>
    have hw := hb.workers w (fun hw => hp (Or.inl ⟨w, hw, rfl⟩))
    rw [State.mayBury, State.stake, hw]
    rfl
  | scheduler k =>
    have hk := hb.schedulers k (fun hk => hp (Or.inr ⟨k, hk, rfl⟩))
    rw [State.mayBury, State.recovered, hk]
    rfl

theorem buriesAlone_of_among {as : List Action} (hb : Bystanders as s)
    (hok : buriesAloneAmong as s a = true) : buriesAlone s a = true := by
  rw [buriesAlone_iff]
  cases a with
  | worker w c =>
    cases c with
    | run env =>
      intro job error hpc hx
      rw [buriesAloneAmong, hpc] at hok
      simp only [hx, Bool.not_true, Bool.false_or, Bool.and_eq_true, decide_eq_true_eq,
        List.all_eq_true, Bool.or_eq_true, Bool.not_eq_true'] at hok
      refine ⟨hok.1, fun hrow p hp => ?_⟩
      by_cases hin : p ∈ callers as
      · rcases hok.2 p hin with (he | hno) | hne
        · exact absurd he hp
        · exact hno
        · exact absurd hrow hne
      · exact mayBury_of_bystander hb hin
    | _ => trivial
  | scheduler k c =>
    cases c with
    | run env =>
      intro row rest hpc hrow p hp
      rw [buriesAloneAmong, hpc] at hok
      simp only [List.all_eq_true, Bool.or_eq_true, decide_eq_true_eq, Bool.not_eq_true'] at hok
      by_cases hin : p ∈ callers as
      · exact (hok p hin).resolve_left hp
      · exact mayBury_of_bystander hb hin
    | _ => trivial
  | _ => trivial

/-- With one attempt a job: a scheduler reclaims job `7` from worker `1`, which goes on
to fail, is about to dead-letter it when worker `1` gives up in vain, and does so; then
the job is replayed. -/
def givenUpTwice : List Action :=
  .createJob 7 plainJob :: promotion 0 7 ++ claim 1 ++ [work 1, work 1, work 1,
    clock (61 * second), schedule 0 { batch := [7] }, schedule 0, work 1, schedule 0,
    .retryJob 7]

/-- Job `7` has one letter, of before its replay. -/
theorem letters_counted_replay : ∃ h s, Lts.Run (system { maxAttempts := 1 }) buriesAlone h s ∧
    (s.letters 7).length = h.count (.replayed 7) + deadCount (s.row 7) ∧
    h.count (.replayed 7) = 1 := by
  obtain ⟨s, h, hr, hf⟩ := run_of_replay_among { maxAttempts := 1 }
    (buriesAloneAmong givenUpTwice) givenUpTwice
    (fun p : State × List Event => (p.2.count (.replayed 7), p.2.count (.lost 1 7))) (1, 1)
    (fun _ _ => buriesAlone_of_among) (by decide +kernel)
  obtain ⟨hreplays, -⟩ := Prod.mk.inj hf
  exact ⟨h, s, hr, (letters_counted _ h s 7 hr).1, hreplays⟩

end NotifyQueue
