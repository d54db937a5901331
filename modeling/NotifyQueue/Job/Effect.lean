import NotifyQueue.Job.Awaits
import NotifyQueue.Job.Moves

/-!
# What a step does to one job

`Effect` lists what a step of the whole system can do to a job `J`, each entry
with the process that does it, the place that process is at, and what the
statement's `WHERE` clause checked of the row.  `step_effect` proves the list
complete.  Later invariants are case analyses of `Effect` and never unfold a
process again.
-/

namespace NotifyQueue

open KeyedTable

/-- The job in whose history an event belongs: every change of its row, and its
deliveries. -/
def Event.job? : Event → Option JobId
  | .created id | .promoted id | .claimed _ id | .sent _ id | .retried _ id | .deferred _ id
  | .deadLettered _ _ id | .reclaimed id | .replayed id | .delivered _ id => some id
  | .refused _ _ | .lost _ _ | .dispatched _ _ => none

/-- The history of `J` in a list of events. -/
def jobEvents (J : JobId) (es : List Event) : List Event :=
  es.filter (fun e => decide (e.job? = some J))

/-- What the action `a` does to job `J`: its row before and after, the events of
its history, and the dead letters added. -/
inductive Effect (cfg : Settings) (s : State) (J : JobId) :
    Action → Option Job → Option Job → List Event → List DeadLetter → Prop
  | stay {a : Action} {r : Option Job} : Effect cfg s J a r r [] []
  | deliver {w : WorkerId} {env : Env} {job : Job} {r : Option Job} :
      (s.workers w).pc = .delivering job → job.id = J →
      Effect cfg s J (.worker w (.run env)) r r [.delivered w J] []
  | create {body : JobCreate} :
      Effect cfg s J (.createJob J body) none (some (insertJob cfg s.db.now J body))
        [.created J] []
  | promote {k : SchedulerId} {env : Env} {r : Job} :
      s.schedulers k = .promoting → J ∈ env.batch → r.status = .pending →
      Effect cfg s J (.scheduler k (.run env)) (some r)
        (some ((promoteIds s.db.now env.batch).set r)) [.promoted J] []
  | claim {w : WorkerId} {env : Env} {rest : List Priority} {r : Job} :
      (s.workers w).pc = .claiming J rest → r.status = .queued →
      Effect cfg s J (.worker w (.run env)) (some r)
        (some ((claimQueuedJob s.db.now w J).set r)) [.claimed w J] []
  | beat {w : WorkerId} {r : Job} : r.status = .claimed → r.workerId = some w →
      Effect cfg s J (.worker w .beat) (some r)
        (some ((updateHeartbeat s.db.now J w).set r)) [] []
  | send {w : WorkerId} {env : Env} {job r : Job} :
      (s.workers w).pc = .succeeding job → job.id = J → r.status = .claimed →
      r.workerId = job.workerId → r.workerId ≠ none →
      Effect cfg s J (.worker w (.run env)) (some r)
        (some ((markSent s.db.now J job.workerId).set r)) [.sent w J] []
  | retry {w : WorkerId} {env : Env} {job r : Job} {error : String} {t : Time} :
      (s.workers w).pc = .failing job error → job.id = J → exhausted job = false →
      r.status = .claimed → r.workerId = job.workerId → r.workerId ≠ none →
      Effect cfg s J (.worker w (.run env)) (some r)
        (some ((scheduleRetry s.db.now (job.attemptCount + 1) t error J job.workerId).set r))
        [.retried w J] []
  | defer {w : WorkerId} {env : Env} {job r : Job} {checkedAt t : Time} :
      (s.workers w).pc = .deferring job checkedAt → job.id = J → r.status = .claimed →
      r.workerId = job.workerId → r.workerId ≠ none →
      Effect cfg s J (.worker w (.run env)) (some r)
        (some ((deferToNextWindow s.db.now t J job.workerId).set r)) [.deferred w J] []
  | giveUp {w : WorkerId} {env : Env} {job r : Job} {error : String} :
      (s.workers w).pc = .failing job error → job.id = J → exhausted job = true →
      r.workerId = job.workerId →
      Effect cfg s J (.worker w (.run env)) (some r)
        (some ((markDeadLettered s.db.now (some error) J (job.attemptCount + 1)
          job.workerId).set r))
        [.deadLettered (some w) (some r.status) J]
        [insertDeadLetter job.letterFields (job.attemptCount + 1) (some error)]
  | bury {k : SchedulerId} {env : Env} {row : RecoveredRow} {rest : List RecoveredRow} {r : Job} :
      s.schedulers k = .burying row rest → row.id = J → r.workerId = none →
      Effect cfg s J (.scheduler k (.run env)) (some r)
        (some ((markDeadLettered s.db.now row.errorMessage J row.attemptCount none).set r))
        [.deadLettered none (some r.status) J]
        [insertDeadLetter row.toLetterFields row.attemptCount row.errorMessage]
  | reclaim {k : SchedulerId} {env : Env} {r : Job} :
      s.schedulers k = .recovering → J ∈ env.batch → r.status = .claimed →
      Effect cfg s J (.scheduler k (.run env)) (some r)
        (some ((recoverStaleClaimed s.db.now cfg.heartbeatTimeout).set r)) [.reclaimed J] []
  | replay {r : Job} : r.status = .deadLettered →
      Effect cfg s J (.retryJob J) (some r) (some ((retryDeadLetteredJob s.db.now J).set r))
        [.replayed J] []

/-- `a` takes the job `J` from the database of `s` to `db` with the events `es`. -/
def Affects (cfg : Settings) (s : State) (a : Action) (db : Db) (es : List Event) (J : JobId) :
    Prop :=
  ∃ ls, Effect cfg s J a (s.row J) (db.row J) (jobEvents J es) ls ∧
    db.letters J = s.letters J ++ ls

variable {cfg : Settings} {s : State} {a : Action} {es : List Event} {J : JobId}

/-! ### The history of a job -/

@[simp] theorem jobEvents_nil : jobEvents J [] = [] := rfl

theorem jobEvents_append (es h : List Event) :
    jobEvents J (es ++ h) = jobEvents J es ++ jobEvents J h := List.filter_append _ _

theorem mem_jobEvents {e : Event} : e ∈ jobEvents J es ↔ e ∈ es ∧ e.job? = some J := by
  rw [jobEvents, List.mem_filter, decide_eq_true_eq]

theorem jobEvents_self {e : Event} (h : e.job? = some J) : jobEvents J [e] = [e] := by
  simp [jobEvents, h]

theorem jobEvents_other {e : Event} (h : e.job? ≠ some J) : jobEvents J [e] = [] := by
  simp [jobEvents, h]

/-- A batch reports on a job once, if it is in the batch. -/
theorem jobEvents_map {f : JobId → Event} (hf : ∀ id, (f id).job? = some id) {ids : List JobId}
    (hn : ids.Nodup) : jobEvents J (ids.map f) = if J ∈ ids then [f J] else [] := by
  have hfilter : jobEvents J (ids.map f) = (ids.filter (fun id => decide (id = J))).map f := by
    rw [jobEvents, List.filter_map]
    congr 1
    refine List.filter_congr (fun id _ => ?_)
    simp only [Function.comp_apply, hf, Option.some.injEq]
  rw [hfilter, List.filter_eq, hn.count]
  split <;> simp

/-- How many events of the history of `J` satisfy `p` since the latest one with
the mark. -/
def tally (mark p : Event → Bool) (J : JobId) (h : List Event) : Nat :=
  Lts.countSince mark p (jobEvents J h)

section
variable {mark p : Event → Bool}

theorem tally_none (he : jobEvents J es = []) (h : List Event) :
    tally mark p J (es ++ h) = tally mark p J h := by
  rw [tally, jobEvents_append, he]
  rfl

theorem tally_one {x : Event} (he : jobEvents J es = [x]) (hx : mark x = false)
    (h : List Event) : tally mark p J (es ++ h) = tally mark p J h + (if p x then 1 else 0) := by
  rw [tally, jobEvents_append, he]
  exact Lts.countSince_cons _ hx _

theorem tally_restart {x : Event} (he : jobEvents J es = [x]) (hx : mark x = true)
    (h : List Event) : tally mark p J (es ++ h) = 0 := by
  rw [tally, jobEvents_append, he]
  exact Lts.countSince_cons_mark hx _

end

/-! ### Steps by what they do to the tables -/

theorem Affects.stay {db : Db} (hj : db.jobs = s.db.jobs)
    (hd : db.deadLetterQueue = s.db.deadLetterQueue) (he : jobEvents J es = []) :
    Affects cfg s a db es J := by
  have hr : db.row J = s.row J := by rw [State.row, Db.row, hj]; rfl
  refine ⟨[], ?_, ?_⟩
  · rw [he, hr]
    exact .stay
  · rw [State.letters, Db.letters, hd, List.append_nil]
    rfl

theorem Affects.single {u : Update Job} {id : JobId} {db db' : Db} {e : Event}
    {ds : List DeadLetter} (hk : ∀ r, u.applies r = true → r.id = id)
    (hf : s.db.fetchrow u = some db) (hj : db'.jobs = db.jobs)
    (hd : db'.deadLetterQueue = db.deadLetterQueue ++ ds) (hds : ∀ d ∈ ds, d.jobId = id)
    (he : e.job? = some id)
    (hE : ∀ r, s.row id = some r → u.applies r = true →
      Effect cfg s id a (some r) (some (u.set r)) [e] ds) :
    Affects cfg s a db' [e] J := by
  obtain ⟨r, hr, ha, hr', hother, hdb⟩ := row_of_fetchrow hk hf
  have hrow : ∀ j, db'.row j = db.row j := fun j => by rw [Db.row, hj]; rfl
  have hq : db.deadLetterQueue = s.db.deadLetterQueue := by rw [hdb]
  have hl : ∀ j, db'.letters j = s.letters j ++ ds.filter (fun d => decide (d.jobId = j)) := by
    intro j
    rw [Db.letters, hd, hq, List.filter_append]
    rfl
  by_cases hJ : J = id
  · subst hJ
    refine ⟨ds, ?_, ?_⟩
    · rw [hrow, hr', show s.row J = some r from hr, jobEvents_self he]
      exact hE r hr ha
    · rw [hl, List.filter_eq_self.mpr (fun d hd' => by simp [hds d hd'])]
  · refine ⟨[], ?_, ?_⟩
    · rw [hrow, hother J hJ, jobEvents_other (by rw [he]; simpa using Ne.symm hJ)]
      exact .stay
    · rw [hl, List.filter_eq_nil_iff.mpr
        (fun d hd' => by rw [hds d hd']; simpa using Ne.symm hJ)]

/-- An update of a batch of rows, each of which it matches. -/
theorem Affects.batch {u : Update Job} {ids : List JobId} {f : JobId → Event} {db : Db}
    (hn : ids.Nodup) (hf : ∀ id, (f id).job? = some id) (hj : db = s.db.update u)
    (hids : ∀ r, s.row J = some r → (u.applies r = true ↔ J ∈ ids))
    (hE : ∀ r, s.row J = some r → u.applies r = true →
      Effect cfg s J a (some r) (some (u.set r)) [f J] [])
    (hrow : J ∈ ids → ∃ r, s.row J = some r) :
    Affects cfg s a db (ids.map f) J := by
  subst hj
  refine ⟨[], ?_, (List.append_nil _).symm⟩
  rw [jobEvents_map hf hn, row_update]
  by_cases hJ : J ∈ ids
  · obtain ⟨r, hr⟩ := hrow hJ
    have ha : u.applies r = true := (hids r hr).mpr hJ
    rw [if_pos hJ, show s.db.row J = some r from hr, Option.map_some,
      Update.apply_of_applies ha, hr]
    exact hE r hr ha
  · rw [if_neg hJ]
    cases hr : s.row J with
    | none =>
      rw [show s.db.row J = none from hr]
      exact .stay
    | some r =>
      have ha : u.applies r = false := by
        rw [← Bool.not_eq_true]
        intro h
        exact hJ ((hids r hr).mp h)
      rw [show s.db.row J = some r from hr, Option.map_some, Update.apply_of_not ha]
      exact .stay

/-! ### One worker, one scheduler -/

theorem deadLetterTxn_affects {job : LetterFields} {error : Option String} {n : Nat}
    {expected caller : Option WorkerId} {db : Db}
    (h : deadLetterTxn s.db job error n expected none = (db, .committed))
    (hE : ∀ r, s.row job.id = some r → r.workerId = expected →
      Effect cfg s job.id a (some r)
        (some ((markDeadLettered s.db.now error job.id n expected).set r))
        [.deadLettered caller (some r.status) job.id] [insertDeadLetter job n error]) :
    Affects cfg s a db [.deadLettered caller ((s.db.row job.id).map Job.status) job.id] J := by
  obtain ⟨marked, hm, rfl⟩ := deadLetterTxn_committed h
  refine .single ?_ hm rfl rfl ?_ rfl ?_
  · intro r hr
    exact (marks_iff.mp hr).1
  · simp [insertDeadLetter]
  · intro r hr ha
    rw [show s.db.row job.id = some r from hr]
    exact hE r hr (marks_iff.mp ha).2

theorem Settling.job_eq {w : WorkerId} {env : Env} {now : Time} {pc : WorkerPc} {job : Job}
    {u : Update Job} {done : Event} {notice : Option Notice}
    (hu : Settling cfg w env now pc job u done notice) :
    pc.outcome? = some job ∧ done.job? = some job.id := by
  cases hu <;> exact ⟨rfl, rfl⟩

theorem Settling.affects {w : WorkerId} {env : Env} {pc : WorkerPc} {job : Job}
    {u : Update Job} {done : Event} {notice : Option Notice} {db : Db}
    (hu : Settling cfg w env s.db.now pc job u done notice) (hpc : (s.workers w).pc = pc)
    (hf : s.db.fetchrow u = some db) : Affects cfg s (.worker w (.run env)) db [done] J := by
  refine .single (fun r hr => (hu.applies_iff.mp hr).1) hf rfl (List.append_nil _).symm (by simp)
    hu.job_eq.2 (fun r _ ha => ?_)
  obtain ⟨-, ⟨hw, hn⟩, hc⟩ := hu.applies_iff.mp ha
  cases hu with
  | success => exact .send hpc rfl hc hw hn
  | failure hx => exact .retry hpc rfl hx hc hw hn
  | deferral => exact .defer hpc rfl hc hw hn

theorem workerNext_affects {w : WorkerId} {env : Env} {sh : Shared} {pc : WorkerPc}
    (h : workerNext cfg w env s.toShared (s.workers w).pc = some (sh, pc, es)) :
    Affects cfg s (.worker w (.run env)) sh.db es J := by
  have ha := worker_await h
  generalize hpc : (s.workers w).pc = pc₀ at ha
  cases ha with
  | claim hf =>
    have hk : ∀ {id}, ∀ r, (claimQueuedJob s.db.now w id).applies r = true →
        r.id = id ∧ r.status = .queued := by
      intro id r hr
      simpa only [claimQueuedJob, Bool.and_eq_true, decide_eq_true_eq] using hr
    exact .single (fun r hr => (hk r hr).1) hf rfl (List.append_nil _).symm (by simp) rfl
      (fun r _ ha => .claim hpc (hk r ha).2)
  | @deliver job =>
    by_cases hid : job.id = J
    · refine ⟨[], ?_, (List.append_nil _).symm⟩
      rw [jobEvents_self (by rw [← hid]; rfl), hid]
      exact .deliver hpc hid
    · exact .stay rfl rfl (jobEvents_other (by simpa [Event.job?] using hid))
  | settle hu hf => exact hu.affects hpc hf
  | bury hx htxn => exact deadLetterTxn_affects htxn (fun r _ hw => .giveUp hpc rfl hx hw)
  | fire hw | refire hw =>
    obtain ⟨-, hjobs, hletters⟩ := fireWebhook_frame hw
    exact .stay hjobs hletters rfl
  | refuse | lose | loseLast | announce =>
    exact .stay rfl rfl (jobEvents_other (by simp [Event.job?]))
  | _ => exact .stay rfl rfl rfl

theorem WorkerMoves.affects {w : WorkerId} {t : State} {c : WorkerChoice}
    (h : WorkerMoves cfg s w t c es) : Affects cfg s (.worker w c) t.db es J := by
  cases h with
  | run hn => exact workerNext_affects hn
  | raise hn =>
    have hsh := (worker_raise hn).1
    exact .stay (by rw [hsh]) (by rw [hsh]) rfl
  | @beat id hdb =>
    refine ⟨[], ?_, ?_⟩
    · rw [hdb, row_update, jobEvents_nil]
      cases hr : s.row J with
      | none =>
        rw [show s.db.row J = none from hr]
        exact .stay
      | some r =>
        rw [show s.db.row J = some r from hr, Option.map_some]
        by_cases ha : (updateHeartbeat s.db.now id w).applies r = true
        · obtain ⟨-, ⟨hw, -⟩, hc⟩ := fenced_iff.mp ha
          rw [Update.apply_of_applies ha]
          exact .beat hc hw
        · rw [Update.apply_of_not (Bool.eq_false_iff.mpr ha)]
          exact .stay
    · rw [hdb, List.append_nil]
      rfl
  | loseHeartbeat hsh | crash hsh => exact .stay (by rw [hsh]) (by rw [hsh]) rfl

theorem schedulerNext_affects {k : SchedulerId} {env : Env} {sh : Shared} {pc : SchedulerPc}
    (h : schedulerNext cfg env s.toShared (s.schedulers k) = some (sh, pc, es)) :
    Affects cfg s (.scheduler k (.run env)) sh.db es J := by
  have ha := scheduler_await h
  generalize hpc : s.schedulers k = pc₀ at ha
  cases ha with
  | promote hp hdb =>
    have hdue : ∀ r, s.row J = some r → J ∈ env.batch → r.status = .pending := by
      intro r hr hJ
      obtain ⟨r', hr', hd⟩ := promotes_mem hp hJ
      cases hr.symm.trans hr'
      exact (due_iff.mp hd).1
    have hids : ∀ r, s.row J = some r →
        ((promoteIds s.db.now env.batch).applies r = true ↔ J ∈ env.batch) := by
      intro r hr
      rw [show J = r.id from (Table.key_of_find? hr).symm]
      exact decide_eq_true_iff
    refine .batch (Table.picks_nodup (promotes_picks hp)) (fun _ => rfl) hdb hids ?_ ?_
    · intro r hr ha
      have hJ := (hids r hr).mp ha
      exact .promote hpc hJ (hdue r hr hJ)
    · intro hJ
      obtain ⟨r, hr, -⟩ := promotes_mem hp hJ
      exact ⟨r, hr⟩
  | recover hp hdb =>
    have hids : ∀ r, s.row J = some r →
        ((recoverStaleClaimed s.db.now cfg.heartbeatTimeout).applies r = true ↔
          J ∈ env.batch) := by
      intro r hr
      rw [recovers_mem hp]
      constructor
      · intro ha
        exact ⟨r, hr, ha⟩
      · rintro ⟨r', hr', ha⟩
        cases hr.symm.trans hr'
        exact ha
    refine .batch (recovers_nodup hp) (fun _ => rfl) hdb hids ?_ ?_
    · intro r hr ha
      have hc : r.status = .claimed := by
        replace ha := stale_iff.mp ha
        exact ha.1
      exact .reclaim hpc ((hids r hr).mp ha) hc
    · intro hJ
      obtain ⟨r, hr, -⟩ := (recovers_mem hp).mp hJ
      exact ⟨r, hr⟩
  | bury htxn => exact deadLetterTxn_affects htxn (fun r _ hw => .bury hpc rfl hw)
  | fire hw | refire hw =>
    obtain ⟨-, hjobs, hletters⟩ := fireWebhook_frame hw
    exact .stay hjobs hletters rfl
  | announce => exact .stay rfl rfl (jobEvents_other (by simp [Event.job?]))
  | _ => exact .stay rfl rfl rfl

theorem SchedulerMoves.affects {k : SchedulerId} {t : State} {c : SchedulerChoice}
    (h : SchedulerMoves cfg s k t c es) : Affects cfg s (.scheduler k c) t.db es J := by
  cases h with
  | run hn => exact schedulerNext_affects hn
  | raise hn =>
    have hsh := (scheduler_raise hn).1
    exact .stay (by rw [hsh]) (by rw [hsh]) rfl
  | crash hsh => exact .stay (by rw [hsh]) (by rw [hsh]) rfl

/-! ### The whole step -/

/-- **The list is complete.** -/
theorem step_affects {t : State} (h : step cfg s a = some (t, es)) (J : JobId) :
    Affects cfg s a t.db es J := by
  cases a with
  | worker w c => exact (worker_moves h).affects
  | scheduler k c => exact (scheduler_moves h).affects
  | createJob id body =>
    obtain ⟨jobs, hi, he⟩ := Option.map_eq_some_iff.mp h
    cases he
    obtain ⟨hfree, hrow⟩ := Table.find?_insert? hi
    refine ⟨[], ?_, (List.append_nil _).symm⟩
    have hJ : ({ s.db with jobs := jobs } : Db).row J =
        if J = id then some (insertJob cfg s.db.now id body) else s.row J := hrow J
    rw [State.setShared, hJ]
    by_cases hid : J = id
    · subst hid
      rw [if_pos rfl, jobEvents_self rfl, show s.row J = none from hfree]
      exact .create
    · rw [if_neg hid, jobEvents_other (by simpa [Event.job?] using Ne.symm hid)]
      exact .stay
  | retryJob id =>
    simp only [step] at h
    split at h
    · cases h
      exact .stay rfl rfl rfl
    · rename_i db hf
      cases h
      have hk : ∀ r, (retryDeadLetteredJob s.db.now id).applies r = true →
          r.id = id ∧ r.status = .deadLettered := by
        intro r hr
        simpa only [retryDeadLetteredJob, Bool.and_eq_true, decide_eq_true_eq] using hr
      exact .single (fun r hr => (hk r hr).1) hf rfl (List.append_nil _).symm (by simp) rfl
        (fun r _ ha => .replay (hk r ha).2)
  | tick t u =>
    cases h
    exact .stay rfl rfl rfl
  | redisFault queue lock counter =>
    cases h
    exact .stay rfl rfl rfl

/-- The same, as the cases an invariant is proved by. -/
theorem step_effect {t : State} (h : step cfg s a = some (t, es)) (J : JobId) :
    ∃ before after e ls, s.row J = before ∧ t.row J = after ∧ jobEvents J es = e ∧
      t.letters J = s.letters J ++ ls ∧ Effect cfg s J a before after e ls := by
  obtain ⟨ls, hE, hl⟩ := step_affects h J
  exact ⟨_, _, _, ls, rfl, rfl, rfl, hl, hE⟩

/-! ### What the events say -/

/-- The events by which a job leaves the status `claimed`. -/
def Event.leaves : Event → Bool
  | .sent _ _ | .retried _ _ | .deferred _ _ | .reclaimed _
  | .deadLettered _ (some .claimed) _ => true
  | _ => false

theorem row_of_claimed {t : State} {w : WorkerId} (h : step cfg s a = some (t, es))
    (hw : .claimed w J ∈ es) :
    ∃ r r', s.row J = some r ∧ r.status = .queued ∧
      t.row J = some r' ∧ r'.status = .claimed ∧ r'.workerId = some w := by
  obtain ⟨before, after, e, ls, hb, ha, he, -, hE⟩ := step_effect h J
  have hmem : .claimed w J ∈ e := he ▸ mem_jobEvents.mpr ⟨hw, rfl⟩
  cases hE with
  | claim _ hq =>
    cases List.mem_singleton.mp hmem
    exact ⟨_, _, hb, hq, ha, rfl, rfl⟩
  | stay | beat => cases hmem
  | _ => cases List.mem_singleton.mp hmem

theorem row_of_promoted {t : State} (h : step cfg s a = some (t, es))
    (hp : .promoted J ∈ es) :
    ∃ r r', s.row J = some r ∧ r.status = .pending ∧
      t.row J = some r' ∧ r'.status = .queued := by
  obtain ⟨before, after, e, ls, hb, ha, he, -, hE⟩ := step_effect h J
  have hmem : .promoted J ∈ e := he ▸ mem_jobEvents.mpr ⟨hp, rfl⟩
  cases hE with
  | promote _ _ hp => exact ⟨_, _, hb, hp, ha, rfl⟩
  | stay | beat => cases hmem
  | _ => cases List.mem_singleton.mp hmem

theorem leaves_deadLettered {caller : Option WorkerId} {status : JobStatus} {id : JobId} :
    (Event.deadLettered caller (some status) id).leaves = true ↔ status = .claimed := by
  cases status <;> simp [Event.leaves]

theorem row_of_leaves {t : State} {x : Event} (h : step cfg s a = some (t, es)) (hx : x ∈ es)
    (hJ : x.job? = some J) (hl : x.leaves = true) :
    ∃ r r', s.row J = some r ∧ r.status = .claimed ∧
      t.row J = some r' ∧ r'.status ≠ .claimed := by
  obtain ⟨before, after, e, ls, hb, ha, he, -, hE⟩ := step_effect h J
  have hmem : x ∈ e := he ▸ mem_jobEvents.mpr ⟨hx, hJ⟩
  cases hE with
  | stay | beat => cases hmem
  | send _ _ hc | retry _ _ _ hc | defer _ _ hc | reclaim _ _ hc =>
    exact ⟨_, _, hb, hc, ha, by simp [markSent, scheduleRetry, deferToNextWindow,
      recoverStaleClaimed]⟩
  | giveUp | bury =>
    obtain rfl := List.mem_singleton.mp hmem
    exact ⟨_, _, hb, leaves_deadLettered.mp hl, ha, by simp [markDeadLettered]⟩
  | _ =>
    obtain rfl := List.mem_singleton.mp hmem
    cases hl

end NotifyQueue
