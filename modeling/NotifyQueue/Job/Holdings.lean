import NotifyQueue.Job.Effect

/-!
# What the processes hold

Between its claim of a job and its outcome write a worker has a `Stake` in the
job: the id alone until `FETCH_JOB` has run, and the row it read from then on.
A scheduler in the loop of `recover_stale_claimed_jobs` holds the rows that
`RECOVER_STALE_CLAIMED` returned and that it has not dealt with yet.

Both are copies that the database may have moved away from.  `stake_step` and
`recovered_step` say where a copy can have come from in one step: it was held
before, or it was read in this very step.
-/

namespace NotifyQueue

open KeyedTable

/-- A worker's hold on a job, with the row it has read. -/
structure Stake where
  job : JobId
  snapshot : Option Job

def WorkerPc.stake : WorkerPc → Option Stake
  | .fetching id => some ⟨id, none⟩
  | .limiting job | .undoing job _ | .deferring job _ | .delivering job | .succeeding job
  | .failing job _ => some ⟨job.id, some job⟩
  | _ => none

/-- The stake of a worker. -/
def State.stake (s : State) (w : WorkerId) : Option Stake := (s.workers w).pc.stake

/-- The recovered rows a scheduler has still to deal with. -/
def SchedulerPc.recovered : SchedulerPc → List RecoveredRow
  | .reclaiming rows => rows
  | .burying row rest => row :: rest
  | .releasing _ rest | .firing _ _ rest => rest
  | _ => []

/-- The recovered rows of a scheduler. -/
def State.recovered (s : State) (k : SchedulerId) : List RecoveredRow :=
  (s.schedulers k).recovered

theorem recovered_of_burying {s : State} {k : SchedulerId} {row : RecoveredRow}
    {rest : List RecoveredRow} (hpc : s.schedulers k = .burying row rest) :
    row ∈ s.recovered k := by
  rw [State.recovered, hpc]
  exact List.mem_cons_self

/-- Where the stake `x` of worker `w` after a step comes from. -/
inductive StakeOrigin (s : State) (a : Action) (t : State) (es : List Event) (w : WorkerId)
    (x : Stake) : Prop
  | kept : s.stake w = some x → (∀ job, outcome? s a ≠ some (w, job)) →
      StakeOrigin s a t es w x
  | claimed : s.stake w = none → x.snapshot = none → jobEvents x.job es = [.claimed w x.job] →
      StakeOrigin s a t es w x
  | fetched {job : Job} : s.stake w = some ⟨x.job, none⟩ → x.snapshot = some job →
      s.row x.job = some job → t.db = s.db → es = [] → StakeOrigin s a t es w x

variable {cfg : Settings} {s t : State} {a : Action} {es : List Event}

/-! ### Workers -/

theorem outcome_stake {pc : WorkerPc} {job : Job} (h : pc.outcome? = some job) :
    pc.stake = some ⟨job.id, some job⟩ := by
  cases pc <;> cases h <;> rfl

theorem run_of_outcome? {w : WorkerId} {job : Job} (ho : outcome? s a = some (w, job)) :
    ∃ env, a = .worker w (.run env) ∧ (s.workers w).pc.outcome? = some job := by
  cases a with
  | worker v c =>
    cases c with
    | run env =>
      obtain ⟨job', hpc, he⟩ := Option.map_eq_some_iff.mp ho
      cases he
      exact ⟨env, rfl, hpc⟩
    | _ => cases ho
  | _ => cases ho

theorem stake_of_outcome? {w : WorkerId} {job : Job} (ho : outcome? s a = some (w, job)) :
    s.stake w = some ⟨job.id, some job⟩ := by
  obtain ⟨-, -, hpc⟩ := run_of_outcome? ho
  exact outcome_stake hpc

/-- **After its outcome write a worker has no stake left.** -/
theorem stake_of_outcome {w : WorkerId} {env : Env} {sh sh' : Shared} {pc pc' : WorkerPc}
    {job : Job} (h : workerNext cfg w env sh pc = some (sh', pc', es))
    (ho : pc.outcome? = some job) : pc'.stake = none := by
  cases worker_await h with
  | settle | lose | bury | loseLast => rfl
  | _ => cases ho

/-- **Where a stake comes from**, over one `await`. -/
theorem workerNext_stake {w : WorkerId} {env : Env} {sh sh' : Shared} {pc pc' : WorkerPc}
    {x : Stake} (h : workerNext cfg w env sh pc = some (sh', pc', es))
    (hx : pc'.stake = some x) :
    (pc.stake = some x ∧ pc.outcome? = none) ∨
    (pc.stake = none ∧ x.snapshot = none ∧ es = [.claimed w x.job]) ∨
    (∃ job, pc.stake = some ⟨x.job, none⟩ ∧ x.snapshot = some job ∧
      sh.db.row x.job = some job ∧ sh' = sh ∧ es = []) := by
  cases worker_await h with
  | claim =>
    cases hx
    exact Or.inr (Or.inl ⟨rfl, rfl, rfl⟩)
  | fetch hj hid =>
    subst hid
    cases hx
    exact Or.inr (Or.inr ⟨_, rfl, rfl, hj, rfl, rfl⟩)
  | reject | allow | undo | fail | deliver => exact Or.inl ⟨hx, rfl⟩
  | _ => cases hx

/-! ### Over a step of the system -/

/-- **Where a stake comes from**, over any step of the system. -/
theorem stake_step (h : step cfg s a = some (t, es)) {w : WorkerId} {x : Stake}
    (hx : t.stake w = some x) : StakeOrigin s a t es w x := by
  by_cases hw : ∃ env, a = .worker w (.run env)
  case neg =>
    refine .kept (held_of_idle (f := WorkerPc.stake) ⟨rfl, rfl, rfl⟩ h
      (fun env ha => hw ⟨env, ha⟩) hx) (fun job ho => ?_)
    obtain ⟨env, ha, -⟩ := run_of_outcome? ho
    exact hw ⟨env, ha⟩
  obtain ⟨env, rfl⟩ := hw
  rcases workerNext_stake (worker_run h) hx with
    ⟨hst, ho⟩ | ⟨hst, hsnap, rfl⟩ | ⟨job, hst, hsnap, hr, hsh, rfl⟩
  · refine .kept hst (fun job hj => ?_)
    rw [outcome?, ho] at hj
    cases hj
  · exact .claimed hst hsnap (jobEvents_self rfl)
  · exact .fetched hst hsnap hr (congrArg Shared.db hsh) rfl

theorem pc_of_succeeding (h : step cfg s a = some (t, es)) {w : WorkerId} {job : Job}
    (hpc : (s.workers w).pc = .succeeding job) (hst : t.stake w ≠ none) :
    (t.workers w).pc = .succeeding job := by
  by_cases hw : ∃ env, a = .worker w (.run env)
  · obtain ⟨env, rfl⟩ := hw
    have ho : (s.workers w).pc.outcome? = some job := by rw [hpc]; rfl
    exact absurd (stake_of_outcome (worker_run h) ho) hst
  · rw [State.stake] at hst
    rcases idle_worker h (fun env ha => hw ⟨env, ha⟩) with hpc' | hpc' | hpc' | hpc'
    · exact hpc'.trans hpc
    all_goals
      rw [hpc'] at hst
      exact absurd rfl hst

theorem pc_of_delivered {w : WorkerId} {env : Env} {job : Job}
    (h : step cfg s (.worker w (.run env)) = some (t, es))
    (hpc : (s.workers w).pc = .delivering job) (hes : es ≠ []) :
    (t.workers w).pc = .succeeding job := by
  have hn := worker_run h
  rw [hpc] at hn
  simp only [workerNext] at hn
  split at hn <;> simp only [Option.some.injEq, Prod.mk.injEq] at hn
  · exact absurd hn.2.2.symm hes
  · exact hn.2.1.symm

/-! ### Schedulers -/

theorem schedulerNext_recovered {env : Env} {sh sh' : Shared} {pc pc' : SchedulerPc}
    {x : RecoveredRow} (h : schedulerNext cfg env sh pc = some (sh', pc', es))
    (hx : x ∈ pc'.recovered) :
    x ∈ pc.recovered ∨
    ∃ r, sh'.db.row x.id = some r ∧ r.recoveredRow = x ∧
      jobEvents x.id es = [.reclaimed x.id] := by
  cases scheduler_await h with
  | promote _ _ hpc | requeue _ hpc => rcases hpc with ⟨-, rfl⟩ | rfl <;> cases hx
  | recover hp =>
    obtain ⟨id, hid, r, hr, rfl⟩ := mem_returning.mp hx
    obtain rfl : r.id = id := Table.key_of_find? hr
    refine Or.inr ⟨r, hr, rfl, ?_⟩
    rw [jobEvents_map (fun _ => rfl) (recovers_nodup hp)]
    exact if_pos hid
  | unlock | bury | skip => exact Or.inl (List.mem_cons_of_mem _ hx)
  | unlockLast | announce | fire | refire => exact Or.inl hx
  | enqueue | reenqueue | recovered => cases hx

/-- **Where a recovered row comes from**, over any step of the system. -/
theorem recovered_step (h : step cfg s a = some (t, es)) {k : SchedulerId} {x : RecoveredRow}
    (hx : x ∈ t.recovered k) :
    x ∈ s.recovered k ∨
    ∃ r, t.row x.id = some r ∧ r.recoveredRow = x ∧ jobEvents x.id es = [.reclaimed x.id] := by
  by_cases hk : ∃ env, a = .scheduler k (.run env)
  · obtain ⟨env, rfl⟩ := hk
    exact schedulerNext_recovered (scheduler_run h) hx
  · rw [State.recovered] at hx
    rcases idle_scheduler h (fun env ha => hk ⟨env, ha⟩) with hpc | hpc | hpc <;> rw [hpc] at hx
    · exact Or.inl hx
    · cases hx
    · cases hx

/-- The row a scheduler is about to dead-letter is at the cap. -/
def BuriesAtCap (pc : SchedulerPc) : Prop :=
  ∀ row rest, pc = .burying row rest → atCap row = true

theorem schedulerNext_buries {env : Env} {sh sh' : Shared} {pc pc' : SchedulerPc}
    (h : schedulerNext cfg env sh pc = some (sh', pc', es)) : BuriesAtCap pc' := by
  intro row rest hb
  cases scheduler_await h with
  | promote _ _ hpc | requeue _ hpc => rcases hpc with ⟨-, rfl⟩ | rfl <;> cases hb
  | unlockLast hcap =>
    cases hb
    exact hcap
  | _ => cases hb

/-- **`recover_stale_claimed_jobs` dead-letters only rows at the cap.** -/
theorem buries_step (h : step cfg s a = some (t, es)) {k : SchedulerId}
    (hs : BuriesAtCap (s.schedulers k)) : BuriesAtCap (t.schedulers k) := by
  by_cases hk : ∃ env, a = .scheduler k (.run env)
  · obtain ⟨env, rfl⟩ := hk
    exact schedulerNext_buries (scheduler_run h)
  · intro row rest hb
    rcases idle_scheduler h (fun env ha => hk ⟨env, ha⟩) with hpc | hpc | hpc <;> rw [hpc] at hb
    · exact hs row rest hb
    · cases hb
    · cases hb

/-- A scheduler has no job twice among the rows it has still to deal with. -/
def RecoversOnce (pc : SchedulerPc) : Prop := (pc.recovered.map (fun row => row.id)).Nodup

theorem returning_nodup {db : Db} {ids : List JobId} (hn : ids.Nodup) :
    ((db.returning Job.recoveredRow ids).map (fun row => row.id)).Nodup := by
  refine List.pairwise_map.mpr (List.pairwise_filterMap.mpr (hn.imp ?_))
  intro i j hne x hx y hy he
  obtain ⟨r, hr, rfl⟩ := Option.map_eq_some_iff.mp hx
  obtain ⟨r', hr', rfl⟩ := Option.map_eq_some_iff.mp hy
  exact hne ((Table.key_of_find? hr).symm.trans (he.trans (Table.key_of_find? hr')))

theorem schedulerNext_once {env : Env} {sh sh' : Shared} {pc pc' : SchedulerPc}
    (h : schedulerNext cfg env sh pc = some (sh', pc', es)) (ho : RecoversOnce pc) :
    RecoversOnce pc' := by
  cases scheduler_await h with
  | promote _ _ hpc | requeue _ hpc => rcases hpc with ⟨-, rfl⟩ | rfl <;> exact List.nodup_nil
  | recover hp => exact returning_nodup (recovers_nodup hp)
  | unlock | bury | skip => exact (List.nodup_cons.mp ho).2
  | unlockLast | announce | fire | refire => exact ho
  | enqueue | reenqueue | recovered => exact List.nodup_nil

theorem recoversOnce_step (h : step cfg s a = some (t, es)) {k : SchedulerId}
    (hs : RecoversOnce (s.schedulers k)) : RecoversOnce (t.schedulers k) := by
  by_cases hk : ∃ env, a = .scheduler k (.run env)
  · obtain ⟨env, rfl⟩ := hk
    exact schedulerNext_once (scheduler_run h) hs
  · rcases idle_scheduler h (fun env ha => hk ⟨env, ha⟩) with hpc | hpc | hpc <;> rw [hpc]
    · exact hs
    · exact List.nodup_nil
    · exact List.nodup_nil

theorem recovered_of_bury {k : SchedulerId} {env : Env} {row : RecoveredRow}
    {rest : List RecoveredRow} (h : step cfg s (.scheduler k (.run env)) = some (t, es))
    (hpc : s.schedulers k = .burying row rest) : t.recovered k = rest := by
  have ha := scheduler_await (scheduler_run h)
  rw [hpc] at ha
  rw [State.recovered]
  generalize t.toShared = sh at ha
  generalize t.schedulers k = pc' at ha
  cases ha with
  | bury | skip => rfl

end NotifyQueue
