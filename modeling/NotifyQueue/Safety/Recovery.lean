import NotifyQueue.Job.Tick

/-!
# What a recovery leaves behind

A call of `recover_stale_claimed_jobs` resets all stale rows in one statement and
then takes them one after another: it deletes the lock, and dead-letters the row
if the attempts are used up.  `Reclaimed` is the invariant of the loop: the rows
that are done have their final form, those to come are reset, and everything else
is as it was.  At the end that is one case split for all rows at once
(`recovery_result`).
-/

namespace NotifyQueue

open KeyedTable

/-- The failed attempt was the last. -/
def Job.lastAttempt (r : Job) : Bool := decide (r.maxAttempts ≤ (r.attemptCount + 1 : Nat))

/-- A stale row that is tried again. -/
def Job.reset (now : Time) (r : Job) : Job :=
  { r with
    status := .pending, attemptCount := r.attemptCount + 1, errorMessage := some staleClaimError,
    workerId := none, claimedAt := none, heartbeatAt := none, updatedAt := now }

/-- A stale row that is given up. -/
def Job.givenUp (now : Time) (r : Job) : Job :=
  { r with
    status := .deadLettered, attemptCount := r.attemptCount + 1,
    errorMessage := some staleClaimError, failedAt := some now,
    workerId := none, claimedAt := none, heartbeatAt := none, updatedAt := now }

/-- The dead letter of a stale row. -/
def Job.staleLetter (r : Job) : DeadLetter :=
  ⟨r.id, r.recipient, r.channel, r.payload, r.attemptCount + 1, some staleClaimError⟩

/-- `ids` are the stale rows of `sh`, and `sh'` differs from `sh` by what the
recovery should make of them. -/
structure RecoveryResult (cfg : Settings) (sh sh' : Shared) (ids : List JobId) : Prop where
  nodup : ids.Nodup
  selected : ∀ id, id ∈ ids ↔ ∃ r, sh.db.row id = some r ∧ r.status = .claimed ∧
    ∃ t, r.heartbeatAt = some t ∧ t < sh.db.now - cfg.heartbeatTimeout
  /-- A stale row with attempts left. -/
  retried : ∀ id ∈ ids, ∀ r, sh.db.row id = some r → r.attemptCount + 1 < r.maxAttempts →
    sh'.db.row id = some (r.reset sh.db.now)
  /-- A stale row without. -/
  buried : ∀ id ∈ ids, ∀ r, sh.db.row id = some r → r.maxAttempts ≤ r.attemptCount + 1 →
    ∃ now, sh'.db.row id = some (r.givenUp now)
  other : ∀ id, id ∉ ids → sh'.db.row id = sh.db.row id
  letters : sh'.db.deadLetterQueue = sh.db.deadLetterQueue ++
    ((ids.filterMap sh.db.row).filter Job.lastAttempt).map Job.staleLetter
  queue : sh'.redis.queue = sh.redis.queue
  lock : ∀ id, sh'.redis.lock id = if id ∈ ids then none else sh.redis.lock id

/-- Scheduler `k` by itself runs `recover_stale_claimed_jobs` from `s` to `t`, and
it returns `ids`. -/
def RecoverCall (cfg : Settings) (k : SchedulerId) (s : State) (ids : List JobId) (t : State) :
    Prop :=
  ∃ env s₁ es rows, step cfg s (.scheduler k (.run env)) = some (s₁, es) ∧
    s₁.schedulers k = .reclaiming rows ∧ ids = rows.map (fun row => row.id) ∧
    Within cfg k s₁ t ∧ t.schedulers k = .requeuing

variable {cfg : Settings} {k : SchedulerId} {s t : State} {sh₀ sh sh' : Shared} {now : Time}
  {freed ids : List JobId} {done rest sel : List Job} {r : Job} {id : JobId}

/-! ### The invariant of the loop -/

/-- `RECOVER_STALE_CLAIMED` returns a row as it is after the reset. -/
def Job.resetRow (now : Time) (r : Job) : RecoveredRow := (r.reset now).recoveredRow

/-- The rows `done` have their final form, the rows `rest` are reset, the locks
`freed` are deleted, and everything else is as in `sh₀`. -/
structure Reclaimed (now : Time) (sh₀ sh : Shared) (freed : List JobId) (done rest : List Job) :
    Prop where
  final : ∀ r ∈ done, if r.lastAttempt then ∃ now', sh.db.row r.id = some (r.givenUp now')
    else sh.db.row r.id = some (r.reset now)
  waiting : ∀ r ∈ rest, sh.db.row r.id = some (r.reset now)
  other : ∀ id, (∀ r ∈ done ++ rest, r.id ≠ id) → sh.db.row id = sh₀.db.row id
  letters : sh.db.deadLetterQueue =
    sh₀.db.deadLetterQueue ++ (done.filter Job.lastAttempt).map Job.staleLetter
  queue : sh.redis.queue = sh₀.redis.queue
  lock : ∀ id, sh.redis.lock id = if id ∈ freed then none else sh₀.redis.lock id

/-- Where the loop over the rows `sel` is. -/
inductive Reclaiming (now : Time) (sh₀ : Shared) (sel : List Job) (sh : Shared) :
    SchedulerPc → Prop
  | loop (done rest : List Job) : sel = done ++ rest →
      Reclaimed now sh₀ sh (done.map Job.id) done rest →
      Reclaiming now sh₀ sel sh (.reclaiming (rest.map (Job.resetRow now)))
  | bury (done rest : List Job) {r : Job} : sel = done ++ r :: rest → r.lastAttempt = true →
      Reclaimed now sh₀ sh ((done ++ [r]).map Job.id) done (r :: rest) →
      Reclaiming now sh₀ sel sh (.burying (r.resetRow now) (rest.map (Job.resetRow now)))
  | release (done rest : List Job) {n : Notice} : sel = done ++ rest →
      n.jobId ∈ done.map Job.id → Reclaimed now sh₀ sh (done.map Job.id) done rest →
      Reclaiming now sh₀ sel sh (.releasing n (rest.map (Job.resetRow now)))
  | fire (done rest : List Job) {n : Notice} {attempt : Nat} : sel = done ++ rest →
      Reclaimed now sh₀ sh (done.map Job.id) done rest →
      Reclaiming now sh₀ sel sh (.firing n attempt (rest.map (Job.resetRow now)))
  | ended : Reclaimed now sh₀ sh (sel.map Job.id) sel [] → Reclaiming now sh₀ sel sh .requeuing
  | left {rows : List QueueRow} : Reclaiming now sh₀ sel sh (.enqueuing rows true)

theorem Reclaimed.congr (h : Reclaimed now sh₀ sh freed done rest)
    (hrow : ∀ id, sh'.db.row id = sh.db.row id)
    (hletters : sh'.db.deadLetterQueue = sh.db.deadLetterQueue)
    (hredis : sh'.redis.queue = sh.redis.queue ∧ sh'.redis.lock = sh.redis.lock) :
    Reclaimed now sh₀ sh' freed done rest := by
  refine ⟨fun r hr => ?_, fun r hr => ?_, fun id hid => ?_, ?_, ?_, fun id => ?_⟩
  · rw [hrow]
    exact h.final r hr
  · rw [hrow]
    exact h.waiting r hr
  · rw [hrow]
    exact h.other id hid
  · rw [hletters]
    exact h.letters
  · rw [hredis.1]
    exact h.queue
  · rw [hredis.2]
    exact h.lock id

theorem Reclaiming.congr {pc : SchedulerPc} (hi : Reclaiming now sh₀ sel sh pc)
    (hrow : ∀ id, sh'.db.row id = sh.db.row id)
    (hletters : sh'.db.deadLetterQueue = sh.db.deadLetterQueue)
    (hredis : sh'.redis.queue = sh.redis.queue ∧ sh'.redis.lock = sh.redis.lock) :
    Reclaiming now sh₀ sel sh' pc := by
  cases hi with
  | loop done rest hsel hr => exact .loop done rest hsel (hr.congr hrow hletters hredis)
  | bury done rest hsel hlast hr => exact .bury done rest hsel hlast (hr.congr hrow hletters hredis)
  | release done rest hsel hid hr =>
    exact .release done rest hsel hid (hr.congr hrow hletters hredis)
  | fire done rest hsel hr => exact .fire done rest hsel (hr.congr hrow hletters hredis)
  | ended hr => exact .ended (hr.congr hrow hletters hredis)
  | left => exact .left

theorem Reclaimed.unlock (h : Reclaimed now sh₀ sh freed done rest) (id : JobId) :
    Reclaimed now sh₀ { sh with redis := sh.redis.deleteLock id } (freed ++ [id]) done rest := by
  refine ⟨h.final, h.waiting, h.other, h.letters, h.queue, fun j => ?_⟩
  by_cases hj : j = id
  · subst hj
    simp [Redis.deleteLock]
  · simp [Redis.deleteLock, hj, h.lock j]

theorem Reclaimed.unlock_again (h : Reclaimed now sh₀ sh freed done rest) (hid : id ∈ freed) :
    Reclaimed now sh₀ { sh with redis := sh.redis.deleteLock id } freed done rest := by
  refine ⟨h.final, h.waiting, h.other, h.letters, h.queue, fun j => ?_⟩
  have := (h.unlock id).lock j
  rw [this]
  by_cases hj : j = id
  · subst hj
    simp [hid]
  · simp [hj]

/-- **A row with attempts left** is done when its lock is deleted. -/
theorem Reclaimed.keep (h : Reclaimed now sh₀ sh freed done (r :: rest))
    (hlast : r.lastAttempt = false) : Reclaimed now sh₀ sh freed (done ++ [r]) rest := by
  refine ⟨fun x hx => ?_, fun x hx => h.waiting x (List.mem_cons_of_mem _ hx), fun id hid => ?_, ?_,
    h.queue, h.lock⟩
  · rcases List.mem_append.mp hx with hx | hx
    · exact h.final x hx
    · rw [List.mem_singleton.mp hx, if_neg (by simp [hlast])]
      exact h.waiting r List.mem_cons_self
  · refine h.other id (fun x hx => hid x ?_)
    rwa [List.append_assoc]
  · rw [h.letters, List.filter_append, List.filter_singleton, hlast]
    simp

/-- **A row without** is given up, by a transaction that finds it just reset. -/
theorem Reclaimed.bury (h : Reclaimed now sh₀ sh freed done (r :: rest))
    (hn : ((done ++ r :: rest).map Job.id).Nodup) (hlast : r.lastAttempt = true) {db : Db}
    (htxn : recoveryTxn sh.db (r.resetRow now) none = (db, .committed)) :
    Reclaimed now sh₀ { sh with db := db } freed (done ++ [r]) rest := by
  obtain ⟨marked, hf, rfl⟩ := deadLetterTxn_committed htxn
  obtain ⟨r', hr', -, hset, hother, hdb⟩ := row_of_fetchrow
    (fun x hx => (marks_iff.mp hx).1) hf
  cases hr'.symm.trans (h.waiting r List.mem_cons_self)
  have hne : ∀ x, x ∈ done ∨ x ∈ rest → x.id ≠ r.id := by
    rw [List.map_append, List.map_cons, List.nodup_append, List.nodup_cons] at hn
    obtain ⟨-, ⟨hrest, -⟩, hdone⟩ := hn
    rintro x (hx | hx) he
    · exact hdone x.id (List.mem_map_of_mem hx) r.id List.mem_cons_self he
    · exact hrest (he ▸ List.mem_map_of_mem hx)
  refine ⟨fun x hx => ?_, fun x hx => ?_, fun id hid => ?_, ?_, h.queue, h.lock⟩
  · rcases List.mem_append.mp hx with hx | hx
    · have hkept : marked.row x.id = sh.db.row x.id := hother _ (hne x (Or.inl hx))
      show if x.lastAttempt then ∃ now', marked.row x.id = some (x.givenUp now')
        else marked.row x.id = some (x.reset now)
      rw [hkept]
      exact h.final x hx
    · rw [List.mem_singleton.mp hx, if_pos hlast]
      exact ⟨sh.db.now, hset⟩
  · exact (hother _ (hne x (Or.inr hx))).trans (h.waiting x (List.mem_cons_of_mem _ hx))
  · have hid' : ∀ x ∈ done ++ r :: rest, x.id ≠ id := fun x hx => hid x (by
      rwa [List.append_assoc])
    exact (hother id (fun he => hid' r (by simp) he.symm)).trans (h.other id hid')
  · show marked.deadLetterQueue ++ [_] = _
    rw [hdb, List.filter_append, List.filter_singleton, hlast, List.map_append, ← List.append_assoc]
    show sh.db.deadLetterQueue ++ [_] = _
    rw [h.letters]
    rfl

/-! ### Through the loop -/

theorem Reclaimed.commits (h : Reclaimed now sh₀ sh freed done (r :: rest)) :
    (recoveryTxn sh.db (r.resetRow now) none).2 = .committed := by
  rcases deadLetterTxn_complete sh.db (r.resetRow now).toLetterFields
    (r.resetRow now).errorMessage (r.resetRow now).attemptCount none with ⟨hf, -⟩ | ⟨db, htxn⟩
  · have hn := not_applies_of_fetchrow hf (h.waiting r List.mem_cons_self)
    rw [← Bool.not_eq_true, marks_iff] at hn
    exact absurd ⟨rfl, rfl⟩ hn
  · rw [recoveryTxn, htxn]

theorem Reclaimed.logged (h : Reclaimed now sh₀ sh freed done rest) {cfg : Settings} {env : Env}
    {db : Db} {n : Notice} {attempt : Nat} {next : Option Nat}
    (hf : fireWebhook cfg env sh.db n attempt = (db, next)) :
    Reclaimed now sh₀ { sh with db := db } freed done rest := by
  obtain ⟨-, hjobs, hletters⟩ := fireWebhook_frame hf
  refine h.congr (fun id => ?_) hletters ⟨rfl, rfl⟩
  show db.jobs.find? id = _
  rw [hjobs]
  rfl

/-- **One `await` of the loop** keeps the invariant. -/
theorem reclaiming_next {env : Env} {pc pc' : SchedulerPc} {es : List Event}
    (hn : (sel.map Job.id).Nodup) (h : schedulerNext cfg env sh pc = some (sh', pc', es))
    (hpc : pc'.isPromoting = false) (hi : Reclaiming now sh₀ sel sh pc) :
    Reclaiming now sh₀ sel sh' pc' := by
  have hrest : ∀ {rest : List Job} {row : RecoveredRow} {rows : List RecoveredRow},
      rest.map (Job.resetRow now) = row :: rows →
      ∃ r rest', rest = r :: rest' ∧ r.resetRow now = row ∧ rest'.map (Job.resetRow now) = rows :=
    fun he => List.map_eq_cons_iff.mp he
  generalize hat : pc = pc₀ at h
  cases scheduler_await h with
  | recovered =>
    cases hi with
    | loop done rest hsel hr =>
      rw [SchedulerPc.reclaiming.injEq, List.map_eq_nil_iff] at hat
      subst hat
      rw [List.append_nil] at hsel
      subst hsel
      exact .ended hr
    | _ => cases hat
  | unlock hcap =>
    cases hi with
    | loop done rest hsel hr =>
      obtain ⟨r, rest', rfl, rfl, rfl⟩ := hrest (SchedulerPc.reclaiming.inj hat)
      have hr' := (hr.unlock r.id).keep hcap
      refine .loop (done ++ [r]) rest' (by simp [hsel]) ?_
      rwa [List.map_append]
    | _ => cases hat
  | unlockLast hcap =>
    cases hi with
    | loop done rest hsel hr =>
      obtain ⟨r, rest', rfl, rfl, rfl⟩ := hrest (SchedulerPc.reclaiming.inj hat)
      have hr' := hr.unlock r.id
      refine .bury done rest' hsel hcap ?_
      rwa [List.map_append]
    | _ => cases hat
  | bury htxn =>
    cases hi with
    | bury done rest hsel hlast hr =>
      cases hat
      subst hsel
      exact .release (done ++ [_]) rest (by simp) (by simp [Job.resetRow, Job.recoveredRow,
        Job.letterFields, Job.reset]) (hr.bury hn hlast htxn)
    | _ => cases hat
  | skip htxn =>
    cases hi with
    | bury done rest hsel hlast hr =>
      cases hat
      exact absurd hr.commits htxn
    | _ => cases hat
  | announce =>
    cases hi with
    | release done rest hsel hid hr =>
      cases hat
      exact .fire done rest hsel (hr.unlock_again hid)
    | _ => cases hat
  | fire hf =>
    cases hi with
    | fire done rest hsel hr =>
      cases hat
      exact .loop done rest hsel (hr.logged hf)
    | _ => cases hat
  | refire hf =>
    cases hi with
    | fire done rest hsel hr =>
      cases hat
      exact .fire done rest hsel (hr.logged hf)
    | _ => cases hat
  | requeue _ hnext =>
    rcases hnext with ⟨-, rfl⟩ | rfl
    · cases hpc
    · exact .left
  | reenqueue => cases hpc
  | promote | enqueue | recover => cases hi <;> cases hat

/-- **The rest of the call**, with the clocks going on. -/
theorem reclaiming_within (hn : (sel.map Job.id).Nodup)
    (hi : Reclaiming now sh₀ sel s.toShared (s.schedulers k)) (h : Within cfg k s t) :
    Reclaiming now sh₀ sel t.toShared (t.schedulers k) := by
  have hall : ([] : List Unit) = [] → Reclaiming now sh₀ sel t.toShared (t.schedulers k) := by
    refine h.invariant (I := fun l u => l = [] →
      Reclaiming now sh₀ sel u.toShared (u.schedulers k)) (fun _ => hi) ?_
    intro l u a v es _ hu hok hstep hnil
    obtain ⟨he, hl⟩ := List.append_eq_nil_iff.mp hnil
    obtain ⟨es', hs, rfl⟩ := Lts.step_of_observe hstep
    rcases onlyScheduler_cases hok with ⟨env, rfl, -⟩ | ⟨x, y, rfl, -⟩
    · have hpc : (v.schedulers k).isPromoting = false := by
        by_contra hp
        rw [Bool.not_eq_false] at hp
        simp [tickEnds, hp] at he
      exact reclaiming_next hn (scheduler_run hs) hpc (hu hl)
    · cases hs
      exact (hu hl).congr (fun _ => rfl) rfl ⟨rfl, rfl⟩
  exact hall rfl

/-! ### The whole call -/

theorem reclaimed_init {cfg : Settings} (hp : recovers cfg sh.db ids = true) :
    Reclaimed sh.db.now sh { sh with
      db := sh.db.update (recoverStaleClaimed sh.db.now cfg.heartbeatTimeout) } [] []
      (ids.filterMap sh.db.row) := by
  refine ⟨by simp, fun r hr => ?_, fun id hid => ?_, by simp [Db.update], rfl, by simp⟩
  · obtain ⟨id, hid, hr⟩ := List.mem_filterMap.mp hr
    obtain ⟨r', hr', ha⟩ := (recovers_mem hp).mp hid
    cases hr.symm.trans hr'
    obtain rfl : r.id = id := Table.key_of_find? hr
    rw [row_update, hr, Option.map_some, Update.apply_of_applies ha]
    rfl
  · rw [row_update]
    cases hr : sh.db.row id with
    | none => rfl
    | some r =>
      have hn : ¬ (recoverStaleClaimed sh.db.now cfg.heartbeatTimeout).applies r = true := by
        intro ha
        have hmem := (recovers_mem hp).mpr ⟨r, hr, ha⟩
        exact hid r (List.mem_filterMap.mpr ⟨id, hmem, hr⟩) (Table.key_of_find? hr)
      rw [Option.map_some, Update.apply_of_not (Bool.eq_false_iff.mpr hn)]

theorem ids_of_recovers (hp : recovers cfg sh.db ids = true) :
    (ids.filterMap sh.db.row).map Job.id = ids := by
  refine ids_of_rows (fun id hid => ?_)
  obtain ⟨r, hr, -⟩ := (recovers_mem hp).mp hid
  exact ⟨r, hr⟩

/-- **At the end of the loop** every row is accounted for. -/
theorem result_of_reclaimed (hp : recovers cfg sh₀.db ids = true)
    (h : Reclaimed sh₀.db.now sh₀ sh ((ids.filterMap sh₀.db.row).map Job.id)
      (ids.filterMap sh₀.db.row) []) : RecoveryResult cfg sh₀ sh ids := by
  have hids := ids_of_recovers hp
  have hfinal : ∀ id ∈ ids, ∀ r, sh₀.db.row id = some r →
      if r.lastAttempt then ∃ now', sh.db.row id = some (r.givenUp now')
      else sh.db.row id = some (r.reset sh₀.db.now) := by
    intro id hid r hr
    obtain rfl : r.id = id := Table.key_of_find? hr
    exact h.final r (List.mem_filterMap.mpr ⟨r.id, hid, hr⟩)
  refine ⟨recovers_nodup hp, fun id => ?_, fun id hid r hr hleft => ?_,
    fun id hid r hr hlast => ?_, fun id hid => ?_, h.letters, h.queue, fun id => ?_⟩
  · rw [recovers_mem hp]
    simp only [stale_iff]
  · have := hfinal id hid r hr
    rwa [if_neg (by simp only [Job.lastAttempt, decide_eq_true_eq]; omega)] at this
  · have := hfinal id hid r hr
    rwa [if_pos (by simp only [Job.lastAttempt, decide_eq_true_eq]; omega)] at this
  · refine h.other id (fun r hr he => hid ?_)
    rw [← he, ← hids]
    rw [List.append_nil] at hr
    exact List.mem_map_of_mem hr
  · rw [h.lock, hids]

theorem exists_recoverCall (hpc : s.schedulers k = .recovering) :
    ∃ ids t, RecoverCall cfg k s ids t := by
  obtain ⟨env, rows, es, -, hnext⟩ := exists_recover cfg s.toShared
  rw [← hpc] at hnext
  let s₁ := (s.setShared { s.toShared with
    db := s.db.update (recoverStaleClaimed s.db.now cfg.heartbeatTimeout) }).setScheduler k
      (.reclaiming rows)
  have hs₁ : s₁.schedulers k = .reclaiming rows := Function.update_self _ _ _
  obtain ⟨t, hw, ht⟩ : ∃ t, Within cfg k s₁ t ∧ t.schedulers k = .requeuing :=
    reclaiming_ends rows hs₁
  refine ⟨_, t, env, s₁, es, rows, ?_, hs₁, rfl, hw, ht⟩
  exact Option.map_eq_some_iff.mpr ⟨_, hnext, rfl⟩

/-- **A recovery is one case split** over all stale rows, in every state. -/
theorem recovery_result (cfg : Settings) (hpc : s.schedulers k = .recovering) :
    (∃ ids t, RecoverCall cfg k s ids t) ∧
      ∀ ids t, RecoverCall cfg k s ids t → RecoveryResult cfg s.toShared t.toShared ids := by
  refine ⟨exists_recoverCall hpc, fun ids t h => ?_⟩
  obtain ⟨env, s₁, es, rows, hstep, hs₁, rfl, hw, ht⟩ := h
  have hnext := scheduler_run hstep
  rw [hpc, hs₁] at hnext
  generalize hat : SchedulerPc.reclaiming rows = pc at hnext
  generalize hsh : s₁.toShared = sh at hnext
  cases scheduler_await hnext with
  | recover hp hdb =>
    subst hdb
    cases hat
    let sel := env.batch.filterMap s.db.row
    have hids : sel.map Job.id = env.batch := ids_of_recovers hp
    have hrows : (s.db.update (recoverStaleClaimed s.db.now cfg.heartbeatTimeout)).returning
        Job.recoveredRow env.batch = sel.map (Job.resetRow s.db.now) :=
      returning_update (fun id hid => (recovers_mem hp).mp hid)
    have hreturned : (sel.map (Job.resetRow s.db.now)).map (fun row => row.id) = env.batch := by
      rw [List.map_map]
      exact hids
    have hn : (sel.map Job.id).Nodup := by
      rw [hids]
      exact recovers_nodup hp
    have hi : Reclaiming s.db.now s.toShared sel s₁.toShared (s₁.schedulers k) := by
      rw [hs₁, hrows, hsh]
      exact .loop [] sel rfl (reclaimed_init hp)
    have hfinal := reclaiming_within hn hi hw
    rw [ht] at hfinal
    rw [hrows, hreturned]
    cases hfinal with
    | ended hr => exact result_of_reclaimed hp hr

/-- A claimed job whose worker has been silent since `0`. -/
def silentJob (id : JobId) (maxAttempts : Int) : Job :=
  { insertJob { maxAttempts := maxAttempts } 0 id plainJob with
    status := .claimed, workerId := some 1, claimedAt := some 0, heartbeatAt := some 0 }

/-- Job `7` has attempts left, job `8` has not. -/
def silentJobs : State :=
  { State.empty with
    db := ⟨60 * second, ⟨[silentJob 7 5, silentJob 8 1], by decide⟩, [], []⟩
    schedulers := fun _ => .recovering }

/-- Job `7` is pending again and job `8` dead-lettered. -/
theorem recovery_result_two : ∃ ids t, RecoverCall {} 0 silentJobs ids t ∧
    t.row 7 = some ((silentJob 7 5).reset (60 * second)) ∧
    ∃ now, t.row 8 = some ((silentJob 8 1).givenUp now) := by
  have hpc : silentJobs.schedulers 0 = .recovering := rfl
  obtain ⟨⟨ids, t, h⟩, hall⟩ := recovery_result {} hpc
  have hr := hall ids t h
  have h7 : silentJobs.db.row 7 = some (silentJob 7 5) := rfl
  have h8 : silentJobs.db.row 8 = some (silentJob 8 1) := rfl
  have hin7 := (hr.selected 7).mpr ⟨_, h7, rfl, 0, rfl, by decide⟩
  have hin8 := (hr.selected 8).mpr ⟨_, h8, rfl, 0, rfl, by decide⟩
  exact ⟨ids, t, h, hr.retried 7 hin7 _ h7 (by decide), hr.buried 8 hin8 _ h8 (by decide)⟩

end NotifyQueue
