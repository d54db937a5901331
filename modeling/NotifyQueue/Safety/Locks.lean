import NotifyQueue.Safety.Fence

/-!
# Who deletes a lock

A worker sets `job:lock:{id}` with its own id and deletes it without looking.
In between it has the job in hand (`WorkerPc.inHand`), for as long as delivery
and outcome take, while the lock lasts `job_lock_ttl_seconds` and the recovery
path deletes it early.  A worker whose claim has been taken away in the meantime
(`State.displaced`) is harmless: its outcome write misses, and it deletes
nothing.  Any other still holds the job, and `soleHolder` is the condition that
`SET NX` is not granted on a job that another worker holds; under it a worker
only ever deletes its own lock.
-/

namespace NotifyQueue

/-- The job whose lock a worker has set and not deleted yet. -/
def WorkerPc.inHand : WorkerPc → Option JobId
  | .claiming id _ | .unlocking id _ | .fetching id | .releasing id _ => some id
  | .limiting job | .undoing job _ | .deferring job _ | .delivering job | .succeeding job
  | .failing job _ => some job.id
  | _ => none

/-- The job of a worker in this state. -/
def State.inHand (s : State) (w : WorkerId) : Option JobId := (s.workers w).pc.inHand

/-- The job whose lock is deleted next. -/
def WorkerPc.deletes? : WorkerPc → Option JobId
  | .unlocking id _ | .releasing id _ => some id
  | _ => none

/-- The worker that deletes a lock in this step, and the job. -/
def deletes? (s : State) : Action → Option (WorkerId × JobId)
  | .worker w (.run _) => ((s.workers w).pc.deletes?).map (fun id => (w, id))
  | _ => none

/-- Redis keeps what it is told. -/
def noRedisFault (_ : State) : Action → Bool
  | .redisFault _ _ _ => false
  | _ => true

/-- The claim of a worker has been taken away: it has read the row it claimed,
and the row names it no longer. -/
def State.displaced (s : State) (w : WorkerId) (J : JobId) : Prop :=
  ∃ job, s.stake w = some ⟨J, some job⟩ ∧ job.workerId = some w ∧
    ∀ r, s.row J = some r → r.workerId ≠ some w

/-- The worker has the job in hand, and its claim has not been taken away. -/
def State.holds (s : State) (w : WorkerId) (J : JobId) : Prop :=
  s.inHand w = some J ∧ ¬ s.displaced w J

/-- `SET NX` is not granted on a job that another worker holds. -/
def SoleHolder (s : State) : Action → Prop
  | .worker v (.run _) => ∀ id rest, (s.workers v).pc = .locking id rest →
      s.redis.lock? id = none → ∀ w, s.holds w id → w = v
  | _ => True

open Classical in
/-- The condition under which a worker deletes only its own locks. -/
noncomputable def soleHolder (s : State) (a : Action) : Bool :=
  noRedisFault s a && decide (SoleHolder s a)

variable {cfg : Settings} {s t : State} {a : Action} {es h : List Event} {J : JobId}

theorem holds_of_deletes? {w : WorkerId} (h : (s.workers w).pc.deletes? = some J) :
    s.holds w J := by
  rw [State.holds, State.displaced, State.inHand, State.stake]
  cases hpc : (s.workers w).pc with
  | unlocking | releasing =>
    rw [hpc] at h
    cases h
    refine ⟨rfl, ?_⟩
    rintro ⟨job, hst, -⟩
    cases hst
  | _ =>
    rw [hpc] at h
    cases h

/-! ### Locks over one `await` -/

theorem deleteLock_lock {rd : Redis} {id : JobId} {l : Lock}
    (h : (rd.deleteLock id).lock J = some l) : rd.lock J = some l := by
  change Function.update rd.lock id none J = some l at h
  by_cases hJ : J = id
  · subst hJ
    rw [Function.update_self] at h
    cases h
  · rwa [Function.update_of_ne hJ] at h

/-- No lock is set, and no job taken in hand. -/
def LocksKept (sh : Shared) (pc : WorkerPc) (sh' : Shared) (pc' : WorkerPc) : Prop :=
  (∀ J l, sh'.redis.lock J = some l → sh.redis.lock J = some l) ∧
    ∀ J, pc'.inHand = some J → pc.inHand = some J

/-- **What a worker does to the locks**, over one `await`: it sets the one of
the job it takes in hand, or it sets none. -/
theorem workerNext_locks {w : WorkerId} {env : Env} {sh sh' : Shared} {pc pc' : WorkerPc}
    (h : workerNext cfg w env sh pc = some (sh', pc', es)) :
    (∃ id rest l, pc = .locking id rest ∧ sh.redis.lock? id = none ∧ pc' = .claiming id rest ∧
      l.holder = w ∧ sh'.redis.lock = Function.update sh.redis.lock id (some l)) ∨
    LocksKept sh pc sh' pc' := by
  cases worker_await h with
  | lock hl =>
    obtain ⟨hfree, rfl⟩ := Redis.setLock_eq_some.mp hl
    exact Or.inl ⟨_, _, _, rfl, hfree, rfl, rfl, rfl⟩
  | pop hz =>
    rw [Redis.zpopmin_frame hz]
    exact Or.inr ⟨fun _ _ hl => hl, fun _ hJ => by cases hJ⟩
  | unlock | release | announce =>
    exact Or.inr ⟨fun _ _ hl => deleteLock_lock hl, fun _ hJ => by cases hJ⟩
  | fetch _ hid =>
    subst hid
    exact Or.inr ⟨fun _ _ hl => hl, fun _ hJ => hJ⟩
  | settle hu => cases hu <;> exact Or.inr ⟨fun _ _ hl => hl, fun _ hJ => hJ⟩
  | gate | claim | reject | allow | undo | fail | deliver | bury =>
    exact Or.inr ⟨fun _ _ hl => hl, fun _ hJ => hJ⟩
  | _ => exact Or.inr ⟨fun _ _ hl => hl, fun _ hJ => by cases hJ⟩

theorem schedulerNext_lock {env : Env} {sh sh' : Shared} {pc pc' : SchedulerPc} {l : Lock}
    (h : schedulerNext cfg env sh pc = some (sh', pc', es))
    (hl : sh'.redis.lock J = some l) : sh.redis.lock J = some l := by
  cases scheduler_await h with
  | enqueue | reenqueue => rwa [Redis.enqueue_frame] at hl
  | unlock | unlockLast | announce => exact deleteLock_lock hl
  | _ => exact hl

/-! ### Displaced workers -/

theorem workerNext_lost {w : WorkerId} {env : Env} {sh sh' : Shared} {pc pc' : WorkerPc}
    (h : workerNext cfg w env sh pc = some (sh', pc', [.lost w J])) : pc' = .joining := by
  cases worker_await h with
  | lose | loseLast => rfl
  | settle hu => cases hu

theorem workerNext_snapshot {w : WorkerId} {env : Env} {sh sh' : Shared} {pc pc' : WorkerPc}
    {job : Job} (h : workerNext cfg w env sh pc = some (sh', pc', es))
    (hst : pc.stake = some ⟨J, some job⟩) (ho : pc.outcome? = none) :
    pc'.stake = some ⟨J, some job⟩ := by
  cases worker_await h with
  | reject | allow | undo | fail | deliver => exact hst
  | settle hu | lose hu => cases hu <;> cases ho
  | bury | loseLast => cases ho
  | _ => cases hst

theorem stake_kept (hstep : step cfg s a = some (t, es)) {w : WorkerId} {job : Job}
    (hst : s.stake w = some ⟨J, some job⟩) (hno : outcome? s a ≠ some (w, job))
    (hin : t.inHand w = some J) : t.stake w = some ⟨J, some job⟩ := by
  by_cases hw : ∃ env, a = .worker w (.run env)
  · obtain ⟨env, rfl⟩ := hw
    refine workerNext_snapshot (worker_run hstep) hst ?_
    by_contra ho
    obtain ⟨job', ho⟩ := Option.ne_none_iff_exists'.mp ho
    have hst' := outcome_stake ho
    rw [State.stake, hst'] at hst
    cases hst
    exact hno (outcome_of_pc env ho)
  · rw [State.inHand] at hin
    rcases idle_worker hstep (fun env ha => hw ⟨env, ha⟩) with hpc | hpc | hpc | hpc
    · rwa [State.stake, hpc]
    all_goals
      rw [hpc] at hin
      cases hin

theorem pc_of_lost (hstep : step cfg s a = some (t, es)) {w : WorkerId} {job : Job}
    (ho : outcome? s a = some (w, job)) (hes : es = [.lost w J]) :
    (t.workers w).pc = .joining := by
  subst hes
  obtain ⟨env, rfl, -⟩ := run_of_outcome? ho
  exact workerNext_lost (worker_run hstep)

/-- **A displaced worker stays displaced** for as long as it has the job in
hand: the row can name it again only by a claim of its own, and its outcome
write misses. -/
theorem displaced_step (hstep : step cfg s a = some (t, es)) {w : WorkerId}
    (hd : s.displaced w J) (hin : t.inHand w = some J) : t.displaced w J := by
  obtain ⟨job, hst, hown, hrow⟩ := hd
  have hno : outcome? s a ≠ some (w, job) := by
    intro ho
    have hid : job.id = J := by
      have h := stake_of_outcome? ho
      rw [hst] at h
      cases h
      rfl
    subst hid
    cases outcome_result hstep ho with
    | lost _ hes =>
      rw [State.inHand, pc_of_lost hstep ho hes] at hin
      cases hin
    | matched hr hw => exact hrow _ hr (hw.trans hown)
  refine ⟨job, stake_kept hstep hst hno hin, hown, fun r' hr' hw => ?_⟩
  obtain ⟨before, after, e, ls, hb, ha, -, -, hE⟩ := step_effect hstep J
  cases ha.symm.trans hr'
  cases hE with
  | stay | deliver => exact hrow r' hb hw
  | promote | beat | send => exact hrow _ hb hw
  | claim hpc =>
    cases hw
    rw [State.stake, hpc] at hst
    cases hst
  | create | retry | defer | giveUp | bury | reclaim | replay => cases hw

/-! ### The invariant -/

/-- A lock on a job that a worker holds is the worker's own, and nobody else
holds the job. -/
structure OwnLocks (s : State) : Prop where
  holder : ∀ w J l, s.holds w J → s.redis.lock J = some l → l.holder = w
  sole : ∀ w v J, s.holds w J → s.holds v J → w = v

theorem ownLocks_init (hi : Initial s) : OwnLocks s := by
  have hnone : ∀ w J, ¬ s.holds w J := by
    rintro w J ⟨hw, -⟩
    rw [State.inHand, hi.workers] at hw
    cases hw
  exact ⟨fun w J l hw => absurd hw (hnone w J), fun w v J hw => absurd hw (hnone w J)⟩

theorem holds_of_step (hstep : step cfg s a = some (t, es)) {w : WorkerId}
    (hh : t.inHand w = some J → s.inHand w = some J) (hw : t.holds w J) : s.holds w J :=
  ⟨hh hw.1, fun hd => hw.2 (displaced_step hstep hd hw.1)⟩

/-- A step that sets no lock and takes no job in hand. -/
theorem OwnLocks.kept (ho : OwnLocks s) (hstep : step cfg s a = some (t, es))
    (hl : ∀ J l, t.redis.lock J = some l → s.redis.lock J = some l)
    (hh : ∀ w J, t.inHand w = some J → s.inHand w = some J) : OwnLocks t where
  holder w J l hw hlk := ho.holder w J l (holds_of_step hstep (hh w J) hw) (hl J l hlk)
  sole w v J hw hv :=
    ho.sole w v J (holds_of_step hstep (hh w J) hw) (holds_of_step hstep (hh v J) hv)

/-- A worker that is granted the lock is the only one that holds the job. -/
theorem OwnLocks.granted (ho : OwnLocks s) (hstep : step cfg s a = some (t, es)) {v : WorkerId}
    {id : JobId} {l : Lock} (hfree : ∀ w, s.holds w id → w = v) (hl : l.holder = v)
    (hlock : t.redis.lock = Function.update s.redis.lock id (some l))
    (hv : t.inHand v = some id) (hother : ∀ w, w ≠ v → t.inHand w = s.inHand w) :
    OwnLocks t := by
  have hof : ∀ w J, t.holds w J → (w = v ∧ J = id) ∨ (J ≠ id ∧ s.holds w J) := by
    intro w J hw
    by_cases hwv : w = v
    · subst hwv
      exact Or.inl ⟨rfl, Option.some.inj (hw.1.symm.trans hv)⟩
    · have hws : s.holds w J := holds_of_step hstep (fun hin => by rwa [hother w hwv] at hin) hw
      refine Or.inr ⟨?_, hws⟩
      rintro rfl
      exact hwv (hfree w hws)
  refine ⟨fun w J l' hw hl' => ?_, fun w w' J hw hw' => ?_⟩
  · rw [hlock] at hl'
    rcases hof w J hw with ⟨rfl, rfl⟩ | ⟨hJ, hw⟩
    · rw [Function.update_self] at hl'
      cases hl'
      exact hl
    · rw [Function.update_of_ne hJ] at hl'
      exact ho.holder w J l' hw hl'
  · rcases hof w J hw with ⟨rfl, rfl⟩ | ⟨hJ, hw⟩
    · rcases hof w' J hw' with ⟨rfl, -⟩ | ⟨hJ, -⟩
      · rfl
      · exact absurd rfl hJ
    · rcases hof w' J hw' with ⟨-, rfl⟩ | ⟨-, hw'⟩
      · exact absurd rfl hJ
      · exact ho.sole w w' J hw hw'

theorem soleHolder_iff : soleHolder s a = true ↔ noRedisFault s a = true ∧ SoleHolder s a := by
  classical
  rw [soleHolder, Bool.and_eq_true, decide_eq_true_eq]

theorem ownLocks_step (hok : soleHolder s a = true) (hstep : step cfg s a = some (t, es))
    (ho : OwnLocks s) : OwnLocks t := by
  obtain ⟨hfault, hsole⟩ := soleHolder_iff.mp hok
  cases redis_step hstep with
  | @worker v env hn =>
    have hother : ∀ w, w ≠ v → t.inHand w = s.inHand w := by
      intro w hw
      rw [State.inHand, State.inHand, worker_frame hstep]
      rintro c hc
      cases hc
      exact hw rfl
    rcases workerNext_locks hn with ⟨id, rest, l, hpc, hfree, hpc', hl, hlock⟩ | ⟨hl, hh⟩
    · refine ho.granted hstep (hsole id rest hpc hfree) hl hlock ?_ hother
      rw [State.inHand, hpc']
      rfl
    · refine ho.kept hstep hl (fun w J hw => ?_)
      by_cases hwv : w = v
      · subst hwv
        exact hh J hw
      · rwa [hother w hwv] at hw
  | scheduler hn =>
    exact ho.kept hstep (fun _ _ hl => schedulerNext_lock hn hl) (fun w J hw =>
      held_of_idle (f := WorkerPc.inHand) ⟨rfl, rfl, rfl⟩ hstep (by simp) hw)
  | idle hidle _ _ hlock =>
    exact ho.kept hstep (fun _ _ hl => by rwa [hlock] at hl) (fun w J hw =>
      held_of_idle (f := WorkerPc.inHand) ⟨rfl, rfl, rfl⟩ hstep (hidle w) hw)
  | fault => cases hfault

theorem run_ownLocks (hr : Lts.Run (system cfg) soleHolder h s) : OwnLocks s :=
  hr.invariant (I := fun _ s => OwnLocks s) (fun _ hi => ownLocks_init hi)
    (fun _ _ _ _ _ _ ho hok hstep => ownLocks_step hok hstep ho)

/-! ### Deletions -/

/-- In the runs whose steps meet `ok`, a worker that deletes a lock finds it
gone or its own. -/
def LocksReleasedByHolder (cfg : Settings) (ok : State → Action → Bool) : Prop :=
  ∀ h s a t es w J, Lts.Run (system cfg) ok h s → ok s a = true →
    step cfg s a = some (t, es) → deletes? s a = some (w, J) →
    ∀ l, s.redis.lock? J = some l → l.holder = w

/-- **A lock is released only by its holder** in every run in which `SET NX` is
granted on no job that another worker holds. -/
theorem locks_released_by_holder (cfg : Settings) : LocksReleasedByHolder cfg soleHolder := by
  intro h s a t es w J hr _ _ hd l hl
  have hw : s.holds w J := by
    cases a with
    | worker v c =>
      cases c with
      | run env =>
        obtain ⟨id, hpc, he⟩ := Option.map_eq_some_iff.mp hd
        cases he
        exact holds_of_deletes? hpc
      | _ => cases hd
    | _ => cases hd
  exact (run_ownLocks hr).holder w J l hw (Option.filter_eq_some_iff.mp hl).1

/-- Worker `1` has failed job `7` and stalls before it deletes the lock.  A
minute later the lock has run out, the job is promoted again, and worker `2`
sets the lock. -/
def expiredLock : List Action :=
  .createJob 7 plainJob :: promotion 0 7 ++ claim 1 ++ [work 1, work 1, work 1, work 1,
    clock (61 * second)] ++ promotion 1 7 ++ [work 2, work 2, work 2]

/-- Worker `1` deletes the lock of worker `2`. -/
theorem not_locks_released_by_holder : ¬ LocksReleasedByHolder {} noRedisFault := by
  intro hreleased
  obtain ⟨s, h, hr, hf⟩ := Lts.run_of_replay (system {}) noRedisFault expiredLock
    (fun p => (deletes? p.1 (work 1), (p.1.redis.lock? 7).map Lock.holder,
      (step {} p.1 (work 1)).isSome))
    (some (1, 7), some 2, true) initial_empty (by decide +kernel)
  obtain ⟨hd, hf⟩ := Prod.mk.inj hf
  obtain ⟨hlock, hstep⟩ := Prod.mk.inj hf
  obtain ⟨l, hl, hholder⟩ := Option.map_eq_some_iff.mp hlock
  obtain ⟨⟨t, es⟩, hstep⟩ := Option.isSome_iff_exists.mp hstep
  have hw := hreleased h s (work 1) t es 1 7 hr rfl hstep hd l hl
  exact absurd (hholder.symm.trans hw) (by decide)

instance (s : State) (w : WorkerId) (J : JobId) : Decidable (s.displaced w J) :=
  decidable_of_iff ((s.stake w).any (fun x => decide (x.job = J) && x.snapshot.any (fun job =>
      decide (job.workerId = some w)) && (s.row J).all (fun r => decide (r.workerId ≠ some w))))
    (by
      rw [State.displaced]
      cases s.stake w with
      | none => simp
      | some x =>
        obtain ⟨id, snapshot⟩ := x
        cases s.row J <;> cases snapshot <;> simp [and_assoc])

instance (s : State) (w : WorkerId) (J : JobId) : Decidable (s.holds w J) :=
  inferInstanceAs (Decidable (s.inHand w = some J ∧ ¬ s.displaced w J))

/-- `soleHolder`, for a replay of `as`. -/
def soleHolderAmong (as : List Action) (s : State) : Action → Bool
  | .worker v (.run _) =>
    match (s.workers v).pc with
    | .locking id _ => (s.redis.lock? id).isSome ||
        (as.filterMap Action.worker?).all (fun w => decide (w = v) || decide (¬ s.holds w id))
    | _ => true
  | a => noRedisFault s a

theorem soleHolder_of_among {as : List Action} (hb : Bystanders as s)
    (hok : soleHolderAmong as s a = true) : soleHolder s a = true := by
  refine soleHolder_iff.mpr ?_
  cases a with
  | worker v c =>
    refine ⟨rfl, ?_⟩
    cases c with
    | run env =>
      intro id rest hpc hfree w hw
      rw [soleHolderAmong, hpc] at hok
      simp only [hfree, Option.isSome_none, Bool.false_or, List.all_eq_true, Bool.or_eq_true,
        decide_eq_true_eq] at hok
      by_cases hin : w ∈ as.filterMap Action.worker?
      · exact (hok w hin).resolve_right (not_not_intro hw)
      · -- a bystander has no job in hand
        have hnone := hw.1
        rw [State.inHand, hb.workers w hin] at hnone
        cases hnone
    | _ => trivial
  | _ => exact ⟨hok, trivial⟩

/-- Worker `1` stalls before it delivers job `7`.  The scheduler reclaims the job and
deletes the lock, and worker `2` claims the job, sends it, and has the lock to delete. -/
def takenOver : List Action :=
  .createJob 7 plainJob :: promotion 0 7 ++ claim 1 ++ [work 1, work 1, clock (31 * second),
    schedule 0 { batch := [7] }, schedule 0] ++ promotion 1 7 ++ claim 2 ++
    [work 2, work 2, work 2 { random := 1 / 2 }, work 2]

/-- Worker `2` deletes its own lock while worker `1`, which has been displaced, still
has the job in hand. -/
theorem locks_released_by_holder_delivery : ∃ h s t es l,
    Lts.Run (system {}) soleHolder h s ∧ s.displaced 1 7 ∧ s.inHand 1 = some 7 ∧
    step {} s (work 2) = some (t, es) ∧ deletes? s (work 2) = some (2, 7) ∧
    s.redis.lock? 7 = some l ∧ l.holder = 2 := by
  obtain ⟨s, h, hr, hf⟩ := run_of_replay_among {} (soleHolderAmong takenOver) takenOver
    (fun p => (decide (p.1.displaced 1 7), p.1.inHand 1, deletes? p.1 (work 2),
      (p.1.redis.lock? 7).isSome, (step {} p.1 (work 2)).isSome))
    (true, some 7, some (2, 7), true, true) (fun _ _ => soleHolder_of_among) (by decide +kernel)
  simp only [Prod.mk.injEq, decide_eq_true_eq] at hf
  obtain ⟨hdisplaced, hin, hd, hlock, hstep⟩ := hf
  obtain ⟨l, hl⟩ := Option.isSome_iff_exists.mp hlock
  obtain ⟨⟨t, es⟩, hstep⟩ := Option.isSome_iff_exists.mp hstep
  have hok : soleHolder s (work 2) = true := by
    refine soleHolder_iff.mpr ⟨rfl, fun id rest hpc => ?_⟩
    obtain ⟨id', hdel, -⟩ := Option.map_eq_some_iff.mp hd
    rw [hpc] at hdel
    cases hdel
  exact ⟨h, s, t, es, l, hr, hdisplaced, hin, hstep, hd, hl,
    locks_released_by_holder {} h s (work 2) t es 2 7 hr hok hstep hd l hl⟩

end NotifyQueue
