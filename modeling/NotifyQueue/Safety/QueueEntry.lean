import NotifyQueue.Safety.Exclusive

/-!
# Queued jobs and their queue entries

A job that is `queued` in PostgreSQL should have an entry in Redis, or be on
its way in or out: in the batch of a scheduler that has not run its pipeline,
or popped by a worker that has not run its claim.  Pops and pipelines keep it
that way; what can break it is the lock.  An outcome handler commits `pending`
before it deletes the lock, and a worker that pops the job in that gap, after
its next promotion, is refused and drops it.

`lockCurrent` is the condition that a refusal on a queued job comes from a
worker that is itself about to claim it.
-/

namespace NotifyQueue

open KeyedTable

/-- The job a `claim_next_job` call has popped and not yet claimed. -/
def WorkerPc.popped : WorkerPc → Option JobId
  | .locking id _ | .claiming id _ => some id
  | _ => none

/-- The rows a scheduler has still to add to the queues. -/
def SchedulerPc.batch : SchedulerPc → List QueueRow
  | .enqueuing rows _ => rows
  | _ => []

/-- Those of them that come from `promote_due_jobs`. -/
def SchedulerPc.promoted : SchedulerPc → List QueueRow
  | .enqueuing rows false => rows
  | _ => []

/-- `J` is in the queue `p`, or on its way in or out. -/
inductive Covered (s : State) (J : JobId) (p : Priority) : Prop
  | member : J ∈ s.redis.queue p → Covered s J p
  | batch {k : SchedulerId} {row : QueueRow} : row ∈ (s.schedulers k).batch → row.id = J →
      row.priority = p → Covered s J p
  | popped {w : WorkerId} : (s.workers w).pc.popped = some J → Covered s J p

/-- A crash, an exception or a loss of Redis data. -/
def Action.faulty : Action → Bool
  | .worker _ (.run _) | .worker _ .beat | .scheduler _ (.run _) | .createJob _ _ | .retryJob _
  | .tick _ _ => false
  | _ => true

/-- No crash, no exception, no loss of Redis data. -/
def faultless (_ : State) (a : Action) : Bool := !a.faulty

/-- Whether a worker is about to run its claim of `J`. -/
def WorkerPc.isClaiming (J : JobId) : WorkerPc → Bool
  | .claiming id _ => decide (id = J)
  | _ => false

/-- A lock that refuses a popped job which is still queued is held by a worker
that is about to claim it. -/
def lockCurrent (s : State) : Action → Bool
  | .worker w (.run _) =>
    match (s.workers w).pc with
    | .locking id _ => (s.redis.lock? id).all (fun l =>
        (s.row id).all (fun r => decide (r.status ≠ .queued)) ||
          (s.workers l.holder).pc.isClaiming id)
    | _ => true
  | _ => true

def queueGuard (s : State) (a : Action) : Bool := faultless s a && lockCurrent s a

variable {cfg : Settings} {s t : State} {a : Action} {es h : List Event} {J : JobId}
  {p : Priority}

theorem popped_of_isClaiming {pc : WorkerPc} (h : pc.isClaiming J = true) :
    pc.popped = some J := by
  cases pc with
  | claiming id rest =>
    obtain rfl : id = J := of_decide_eq_true h
    rfl
  | _ => cases h

/-! ### Queues over one `await` -/

theorem workerNext_queue {w : WorkerId} {env : Env} {sh sh' : Shared} {pc pc' : WorkerPc}
    (h : workerNext cfg w env sh pc = some (sh', pc', es)) (hJ : J ∈ sh.redis.queue p) :
    J ∈ sh'.redis.queue p ∨ pc'.popped = some J := by
  cases worker_await h with
  | pop hz =>
    rcases Redis.mem_zpopmin hz hJ with rfl | hJ
    · exact Or.inr rfl
    · exact Or.inl hJ
  | lock hl => exact Or.inl (by rwa [Redis.setLock_frame hl])
  | _ => exact Or.inl hJ

/-- A worker lets go of a popped job when the lock is refused, or when its
claim has run. -/
theorem workerNext_popped {w : WorkerId} {env : Env} {sh sh' : Shared} {pc pc' : WorkerPc}
    (h : workerNext cfg w env sh pc = some (sh', pc', es)) (hJ : pc.popped = some J) :
    pc'.popped = some J ∨
    (∃ rest l, pc = .locking J rest ∧ sh.redis.lock? J = some l) ∨
    sh.db.fetchrow (claimQueuedJob sh.db.now w J) = none ∨ es = [.claimed w J] := by
  cases worker_await h with
  | refuse hheld =>
    obtain rfl := Option.some.inj hJ
    exact Or.inr (Or.inl ⟨_, _, rfl, hheld⟩)
  | lock => exact Or.inl hJ
  | gate hf =>
    obtain rfl := Option.some.inj hJ
    exact Or.inr (Or.inr (Or.inl hf))
  | claim =>
    obtain rfl := Option.some.inj hJ
    exact Or.inr (Or.inr (Or.inr rfl))
  | settle hu | lose hu => cases hu <;> cases hJ
  | _ => cases hJ

theorem schedulerNext_queue {env : Env} {sh sh' : Shared} {pc pc' : SchedulerPc}
    (h : schedulerNext cfg env sh pc = some (sh', pc', es))
    (hJ : J ∈ sh.redis.queue p ∨ ∃ row ∈ pc.batch, row.priority = p ∧ row.id = J) :
    J ∈ sh'.redis.queue p := by
  cases scheduler_await h with
  | enqueue | reenqueue => exact (Redis.mem_enqueue _ sh.redis).mpr hJ.symm
  | _ =>
    rcases hJ with hm | ⟨row, hrow, -⟩
    · exact hm
    · cases hrow

theorem mem_batch_of_promoted {pc : SchedulerPc} {row : QueueRow} (h : row ∈ pc.promoted) :
    row ∈ pc.batch := by
  unfold SchedulerPc.promoted at h
  split at h
  · exact h
  · cases h

theorem promoting_promoted {env : Env} {sh sh' : Shared} {pc' : SchedulerPc} {r : Job}
    (h : schedulerNext cfg env sh .promoting = some (sh', pc', es)) (hJ : J ∈ env.batch)
    (hr : sh'.db.row J = some r) : r.queueRow ∈ pc'.promoted := by
  cases scheduler_await h with
  | promote _ _ hpc =>
    rcases hpc with ⟨hb, rfl⟩ | rfl
    · rw [hb] at hJ
      cases hJ
    · exact mem_returning.mpr ⟨J, hJ, r, hr, rfl⟩

/-! ### Steps of the system -/

theorem covered_of_member (hcalm : faultless s a = true) (hstep : step cfg s a = some (t, es))
    (hm : J ∈ s.redis.queue p) : Covered t J p := by
  cases redis_step hstep with
  | worker hn =>
    rcases workerNext_queue hn hm with hm | hpop
    · exact .member hm
    · exact .popped hpop
  | scheduler hn => exact .member (schedulerNext_queue hn (Or.inl hm))
  | idle _ _ hqueue => exact .member (by rwa [hqueue])
  | fault => cases hcalm

theorem covered_of_batch (hcalm : faultless s a = true) (hstep : step cfg s a = some (t, es))
    {k : SchedulerId} {row : QueueRow} (hb : row ∈ (s.schedulers k).batch) :
    Covered t row.id row.priority := by
  by_cases hk : ∃ c, a = .scheduler k c
  case neg =>
    have hpc := scheduler_frame hstep (fun c hc => hk ⟨c, hc⟩)
    exact .batch (k := k) (by rwa [hpc]) rfl rfl
  obtain ⟨c, rfl⟩ := hk
  cases scheduler_moves hstep with
  | run hn => exact .member (schedulerNext_queue hn (Or.inr ⟨row, hb, rfl, rfl⟩))
  | raise | crash => cases hcalm

/-- A popped job stays with its worker, or is about to be claimed by the one
whose lock stands in the way. -/
theorem covered_of_popped (hok : queueGuard s a = true) (hstep : step cfg s a = some (t, es))
    {r r' : Job} (hr : s.row J = some r) (hq : r.status = .queued) (hr' : t.row J = some r')
    (hq' : r'.status = .queued) {w : WorkerId} (hw : (s.workers w).pc.popped = some J) :
    Covered t J p := by
  rw [queueGuard, Bool.and_eq_true] at hok
  obtain ⟨hcalm, hlock⟩ := hok
  by_cases ha : ∃ c, a = .worker w c
  case neg =>
    have hpc := worker_frame hstep (fun c hc => ha ⟨c, hc⟩)
    exact .popped (w := w) (by rwa [hpc])
  obtain ⟨c, rfl⟩ := ha
  cases worker_moves hstep with
  | raise | loseHeartbeat | crash => cases hcalm
  | beat _ _ hpc => exact .popped (w := w) (by rwa [hpc])
  | run hn =>
    rcases workerNext_popped hn hw with hpop | ⟨rest, l, hlk, hl⟩ | hf | hes
    · exact .popped hpop
    · -- refused: the holder of the lock is another worker, and about to claim
      have hcl : (s.workers l.holder).pc.isClaiming J = true := by
        rw [lockCurrent, hlk] at hlock
        simpa [hl, hr, hq] using hlock
      have hne : l.holder ≠ w := by
        intro h
        rw [h, hlk] at hcl
        cases hcl
      have hframe := worker_frame hstep (w := l.holder) (fun c hc => by
        cases hc
        exact hne rfl)
      exact .popped (w := l.holder) (by rw [hframe]; exact popped_of_isClaiming hcl)
    · have hna := not_applies_of_fetchrow hf hr
      have hid : r.id = J := Table.key_of_find? hr
      simp [claimQueuedJob, hq, hid] at hna
    · have hmem : .claimed w J ∈ es := by rw [hes]; exact List.mem_singleton_self _
      obtain ⟨-, r₁, -, -, hr₁, hc, -⟩ := row_of_claimed hstep hmem
      cases hr'.symm.trans hr₁
      cases hq'.symm.trans hc

/-! ### The invariant -/

/-- `J` is covered whenever it is queued. -/
def QueuedCovered (s : State) (J : JobId) : Prop :=
  ∀ r, s.row J = some r → r.status = .queued → Covered s J r.priority

theorem queuedCovered_step (hok : queueGuard s a = true) (hstep : step cfg s a = some (t, es))
    (hc : QueuedCovered s J) : QueuedCovered t J := by
  intro r' hr' hq'
  have hcalm : faultless s a = true := by
    rw [queueGuard, Bool.and_eq_true] at hok
    exact hok.1
  obtain ⟨before, after, e, ls, hb, ha, he, -, hE⟩ := step_effect hstep J
  cases ha.symm.trans hr'
  cases hE with
  | stay | deliver =>
    rcases hc r' hb hq' with hm | ⟨hrow, hid, hp⟩ | hw
    · exact covered_of_member hcalm hstep hm
    · subst hid
      rw [← hp]
      exact covered_of_batch hcalm hstep hrow
    · exact covered_of_popped hok hstep hb hq' ha hq' hw
  | @promote k env r hpc hJ =>
    cases scheduler_moves hstep with
    | run hn =>
      rw [hpc] at hn
      have hid : r.id = J := Table.key_of_find? hb
      exact .batch (mem_batch_of_promoted (promoting_promoted hn hJ ha)) hid rfl
  | beat hcl => cases hcl.symm.trans hq'
  | create | claim | send | retry | defer | giveUp | bury | reclaim | replay => cases hq'

/-- In the runs whose steps meet `ok`, a queued job is a member of its queue or
on its way in or out. -/
def QueueEntriesKept (cfg : Settings) (ok : State → Action → Bool) : Prop :=
  ∀ h s J r, Lts.Run (system cfg) ok h s → s.row J = some r → r.status = .queued →
    Covered s J r.priority

/-- **No queue entry is lost** in a run without faults in which a lock refuses a
queued job only for a worker that is about to claim it. -/
theorem queue_entries_kept (cfg : Settings) : QueueEntriesKept cfg queueGuard := by
  intro h s J r hr
  exact run_rows (P := fun _ s r => r.status = .queued → Covered s J r.priority) hr
    (fun _ _ _ _ _ _ hc hok hstep => queuedCovered_step hok hstep hc) r

/-- Worker `1` fails job `7` and stalls before it deletes the lock; the job is
promoted again half a minute later, and worker `2` pops it and is refused. -/
def lateRelease : List Action :=
  .createJob 7 plainJob :: promotion 0 7 ++ claim 1 ++ [work 1, work 1, work 1, work 1,
    clock (30 * second)] ++ promotion 1 7 ++ [work 2, work 2, work 2]

/-- The batches are empty after a replay if those of the schedulers in it are. -/
theorem batch_of_exec {ok : State → Action → Bool} {as : List Action}
    (he : (system cfg).exec ok State.empty as = some (t, h))
    (hall : (as.filterMap Action.scheduler?).all (fun k => (t.schedulers k).batch.isEmpty) = true)
    (k : SchedulerId) : (t.schedulers k).batch = [] := by
  by_cases hk : k ∈ as.filterMap Action.scheduler?
  · exact List.isEmpty_iff.mp (List.all_eq_true.mp hall k hk)
  · rw [scheduler_of_exec he hk]
    rfl

/-- The same for what the workers have popped. -/
theorem popped_of_exec {ok : State → Action → Bool} {as : List Action}
    (he : (system cfg).exec ok State.empty as = some (t, h))
    (hall : (as.filterMap Action.worker?).all (fun w => (t.workers w).pc.popped.isNone) = true)
    (w : WorkerId) : (t.workers w).pc.popped = none := by
  by_cases hw : w ∈ as.filterMap Action.worker?
  · exact Option.isNone_iff_eq_none.mp (List.all_eq_true.mp hall w hw)
  · rw [worker_of_exec he hw]
    rfl

/-- Job `7` is queued, in no queue, and nobody has it. -/
theorem not_queue_entries_kept : ¬ QueueEntriesKept {} faultless := by
  intro hkept
  have hrun : ((system {}).exec faultless State.empty lateRelease).map
      (fun p : State × List Event => ((p.1.row 7).map (fun r => (r.status, r.priority)),
        decide (7 ∈ p.1.redis.queue .medium),
        (lateRelease.filterMap Action.scheduler?).all (fun k => (p.1.schedulers k).batch.isEmpty),
        (lateRelease.filterMap Action.worker?).all (fun w => (p.1.workers w).pc.popped.isNone))) =
      some (some (.queued, .medium), false, true, true) := by decide +kernel
  obtain ⟨⟨t, h⟩, he, hf⟩ := Option.map_eq_some_iff.mp hrun
  obtain ⟨hrow, hf⟩ := Prod.mk.inj hf
  obtain ⟨hqueue, hf⟩ := Prod.mk.inj hf
  obtain ⟨hbatch, hpop⟩ := Prod.mk.inj hf
  obtain ⟨r, hr7, hst⟩ := Option.map_eq_some_iff.mp hrow
  obtain ⟨hq, hp⟩ := Prod.mk.inj hst
  rcases hkept h t 7 r (Lts.run_of_exec initial_empty he) hr7 hq with hm | ⟨hb, -, -⟩ | hw
  · rw [hp] at hm
    exact absurd hm (of_decide_eq_false hqueue)
  · rw [batch_of_exec he hbatch] at hb
    cases hb
  · rw [popped_of_exec he hpop] at hw
    cases hw

/-- A scheduler has promoted job `7` and not yet run its pipeline. -/
theorem queue_entries_kept_promotion : ∃ h s r, Lts.Run (system {}) queueGuard h s ∧
    s.row 7 = some r ∧ r.status = .queued ∧ Covered s 7 r.priority := by
  obtain ⟨s, h, hr, hf⟩ := Lts.run_of_replay (system {}) queueGuard
    [.createJob 7 plainJob, schedule 0 { batch := [7] }]
    (fun p : State × List Event => (p.1.row 7).map Job.status) (some .queued) initial_empty
    (by decide +kernel)
  obtain ⟨r, hr7, hq⟩ := Option.map_eq_some_iff.mp hf
  exact ⟨h, s, r, hr, hr7, hq, queue_entries_kept {} h s 7 r hr hr7 hq⟩

end NotifyQueue
