import NotifyQueue.Model.Shutdown
import NotifyQueue.Safety.Fence
import NotifyQueue.Safety.QueueEntry
import NotifyQueue.Safety.Shape

/-!
# What a stop leaves behind

A worker that is never cut short while it has a job in hand owns that job and no
other: whatever else goes on, a row that is claimed in its name is the row of the
job it has in hand (`claimed_in_hand`).  The outcome write of such a worker
matches the row, so when it gets back to the head of its loop no row is claimed in
its name.

A loop looks at `stop` at its head, and so a deployment that has been stopped, and
not killed, leaves no job claimed, and every queued job in its queue
(`graceful_stop`): the next start has nothing to recover.
-/

namespace NotifyQueue

open KeyedTable

/-- Worker `w` neither dies nor raises while it has a job in hand. -/
def steady (w : WorkerId) (s : State) : Action → Bool
  | .worker v (.raise _) | .worker v .crash => decide (v ≠ w) || (s.stake w).isNone
  | _ => true

/-- A row that is claimed in the name of `w` is that of the job it has in hand, and the
snapshot it has read says so too. -/
def InHand (s : State) (w : WorkerId) (J : JobId) : Prop :=
  ∀ r, s.row J = some r → r.status = .claimed → r.workerId = some w →
    ∃ x, s.stake w = some ⟨J, x⟩ ∧ ∀ job, x = some job → job.workerId = some w

variable {cfg : Settings} {s t : State} {a : Action} {es h : List Event} {J : JobId} {w : WorkerId}

/-! ### The job in hand -/

theorem inHand_init (hi : Initial s) (w : WorkerId) (J : JobId) : InHand s w J := by
  intro r hr
  rw [row_initial hi] at hr
  cases hr

/-- A worker goes on with the stake it has, reads the row, or writes an outcome. -/
theorem workerNext_goesOn {env : Env} {sh sh' : Shared} {pc pc' : WorkerPc} {x : Option Job}
    (h : workerNext cfg w env sh pc = some (sh', pc', es)) (hst : pc.stake = some ⟨J, x⟩) :
    (pc'.stake = some ⟨J, x⟩ ∧ pc.outcome? = none) ∨
    (∃ job, sh.db.row J = some job ∧ pc'.stake = some ⟨J, some job⟩) ∨
    ∃ job, x = some job ∧ pc.outcome? = some job := by
  cases worker_await h with
  | fetch hj hid =>
    cases hst
    subst hid
    exact Or.inr (Or.inl ⟨_, hj, rfl⟩)
  | reject | allow | undo | fail | deliver => exact Or.inl ⟨hst, rfl⟩
  | settle hu | lose hu =>
    have ho := hu.job_eq.1
    rw [outcome_stake ho] at hst
    cases hst
    exact Or.inr (Or.inr ⟨_, rfl, ho⟩)
  | bury | loseLast =>
    cases hst
    exact Or.inr (Or.inr ⟨_, rfl, rfl⟩)
  | _ => cases hst

/-- **What becomes of a stake** of a worker that is not cut short. -/
theorem stake_goesOn (hok : steady w s a = true) (hstep : step cfg s a = some (t, es))
    {x : Option Job} (hst : s.stake w = some ⟨J, x⟩) :
    t.stake w = some ⟨J, x⟩ ∨
    (∃ job, s.row J = some job ∧ t.stake w = some ⟨J, some job⟩) ∨
    ∃ job, x = some job ∧ outcome? s a = some (w, job) := by
  by_cases ha : ∃ c, a = .worker w c
  case neg =>
    refine Or.inl ?_
    rw [State.stake, worker_frame hstep (fun c hc => ha ⟨c, hc⟩)]
    exact hst
  obtain ⟨c, rfl⟩ := ha
  cases worker_moves hstep with
  | run hn =>
    rcases workerNext_goesOn hn hst with ⟨hst', -⟩ | ⟨job, hr, hst'⟩ | ⟨job, hx, ho⟩
    · exact Or.inl hst'
    · exact Or.inr (Or.inl ⟨job, hr, hst'⟩)
    · exact Or.inr (Or.inr ⟨job, hx, outcome_of_pc _ ho⟩)
  | raise | crash => simp [steady, hst] at hok
  | beat _ _ hpc | loseHeartbeat _ hpc =>
    refine Or.inl ?_
    rw [State.stake, hpc]
    exact hst

theorem not_stay_of_outcome (hstep : step cfg s a = some (t, es)) {job r : Job}
    (ho : outcome? s a = some (w, job)) (hid : job.id = J) (hr : s.row J = some r)
    (hc : r.status = .claimed) (hw : r.workerId = job.workerId) (hn : r.workerId ≠ none) :
    jobEvents J es ≠ [] := by
  subst hid
  cases outcome_result hstep ho with
  | lost _ _ hmiss => exact absurd hc (hmiss r hr hw hn)
  | matched _ _ _ hes he =>
    rw [hes, jobEvents_self he]
    simp

theorem inHand_step (hok : steady w s a = true) (hstep : step cfg s a = some (t, es))
    (hin : InHand s w J) : InHand t w J := by
  intro r' hr' hc hw
  obtain ⟨before, after, e, ls, hb, ha, he, -, hE⟩ := step_effect hstep J
  cases ha.symm.trans hr'
  -- the row was claimed by `w` before: the stake goes on
  have hkept : ∀ r, s.row J = some r → r.status = .claimed → r.workerId = some w →
      (∀ job, outcome? s a = some (w, job) → job.id = J → job.workerId = some w → False) →
      ∃ x, t.stake w = some ⟨J, x⟩ ∧ ∀ job, x = some job → job.workerId = some w := by
    intro r hr hc hw hno
    obtain ⟨x, hst, hx⟩ := hin r hr hc hw
    rcases stake_goesOn hok hstep hst with hst' | ⟨job, hj, hst'⟩ | ⟨job, rfl, ho⟩
    · exact ⟨x, hst', hx⟩
    · cases hr.symm.trans hj
      refine ⟨_, hst', ?_⟩
      rintro _ ⟨⟩
      exact hw
    · have hst₁ := stake_of_outcome? ho
      rw [hst] at hst₁
      cases hst₁
      exact (hno job ho rfl (hx job rfl)).elim
  cases hE with
  | stay =>
    refine hkept r' hb hc hw (fun job ho hid hown => ?_)
    exact not_stay_of_outcome hstep ho hid hb hc (hw.trans hown.symm) (by simp [hw]) he
  | deliver hpc =>
    -- a delivery is no outcome write
    refine hkept r' hb hc hw (fun job ho _ _ => ?_)
    obtain ⟨env, hact, hpc'⟩ := run_of_outcome? ho
    cases hact
    rw [hpc] at hpc'
    cases hpc'
  | @beat v r hcl hv =>
    refine hkept r hb hcl hw (fun job ho hid hown => ?_)
    obtain ⟨env, hact, -⟩ := run_of_outcome? ho
    cases hact
  | @claim v env rest r hpc hq =>
    obtain rfl : v = w := Option.some.inj hw
    have hn := worker_run hstep
    rw [hpc] at hn
    refine ⟨none, ?_, by simp⟩
    generalize hsh : t.toShared = sh at hn
    generalize hpc' : (t.workers v).pc = pc' at hn
    cases worker_await hn with
    | gate => cases he
    | claim =>
      rw [State.stake, hpc']
      rfl
    | settle hu | lose hu => cases hu
  | _ => cases hc

theorem run_inHand (hr : Lts.Run (system cfg) (steady w) h s) (J : JobId) : InHand s w J :=
  hr.invariant (I := fun _ s => InHand s w J) (fun _ hi => inHand_init hi w J)
    (fun _ _ _ _ _ _ hin hok hstep => inHand_step hok hstep hin)

/-- **A worker owns at most the job it has in hand.**  In every run in which it is not cut
short with a job in hand, whatever else happens: a row claimed in its name is that of the
job it has in hand, so there is one at most, and none when it has none. -/
theorem claimed_in_hand (hr : Lts.Run (system cfg) (steady w) h s) :
    (∀ J r, s.row J = some r → r.status = .claimed → r.workerId = some w →
      (s.stake w).map Stake.job = some J) ∧
    ∀ J J' r r', s.row J = some r → r.status = .claimed → r.workerId = some w →
      s.row J' = some r' → r'.status = .claimed → r'.workerId = some w → J = J' := by
  have hhand : ∀ J r, s.row J = some r → r.status = .claimed → r.workerId = some w →
      (s.stake w).map Stake.job = some J := by
    intro J r hrow hc hw
    obtain ⟨x, hst, -⟩ := run_inHand hr J r hrow hc hw
    rw [hst]
    rfl
  refine ⟨hhand, fun J J' r r' hrow hc hw hrow' hc' hw' => ?_⟩
  exact Option.some.inj ((hhand J r hrow hc hw).symm.trans (hhand J' r' hrow' hc' hw'))

/-- Worker `1` has claimed job `7` while worker `2` has died with job `8` claimed. -/
theorem claimed_in_hand_one : ∃ h s, Lts.Run (system {}) (steady 1) h s ∧
    (s.db.jobs.rows.map (fun r => (r.id, r.status, r.workerId)) =
      [(7, .claimed, some 1), (8, .claimed, some 2)]) ∧
    ∀ J r, s.row J = some r → r.status = .claimed → r.workerId = some 1 →
      (s.stake 1).map Stake.job = some J := by
  obtain ⟨s, h, hr, hf⟩ := Lts.run_of_replay (system {}) (steady 1)
    ([.createJob 7 plainJob, .createJob 8 plainJob, schedule 0 { batch := [7, 8] }, schedule 0] ++
      claim 1 ++ claim 2 ++ [.worker 2 .crash])
    (fun p : State × List Event => p.1.db.jobs.rows.map (fun r => (r.id, r.status, r.workerId)))
    [(7, .claimed, some 1), (8, .claimed, some 2)] initial_empty (by decide +kernel)
  exact ⟨h, s, hr, hf, (claimed_in_hand hr).1⟩

/-! ### A deployment that has been stopped -/

/-- The steps of the processes meet `ok`. -/
def onCore (ok : State → Action → Bool) (d : Deployment) : DeploymentAction → Bool
  | .core a => ok d.core a
  | _ => true

variable {d d' : Deployment} {ok : State → Action → Bool} {x : DeploymentAction}

/-- What a step of a deployment can do: a process that has not returned takes a step, or a
loop that has not returned is stopped or, at its head, returns. -/
inductive DeploymentMoves (cfg : Settings) (d : Deployment) :
    DeploymentAction → Deployment → List Event → Prop
  | core {a : Action} {s : State} {es : List Event} : d.runs a = true →
      step cfg d.core a = some (s, es) → DeploymentMoves cfg d (.core a) { d with core := s } es
  | worker {x : DeploymentAction} {w : WorkerId} {l : LoopState} : d.workerLoop w ≠ .returned →
      (l = .returned → (d.core.workers w).pc.atLoopHead = true) →
      DeploymentMoves cfg d x (d.setWorkerLoop w l) []
  | scheduler {x : DeploymentAction} {k : SchedulerId} {l : LoopState} :
      d.schedulerLoop k ≠ .returned → (l = .returned → (d.core.schedulers k).atLoopHead = true) →
      DeploymentMoves cfg d x (d.setSchedulerLoop k l) []

theorem deployment_moves (hstep : deploymentStep cfg d x = some (d', es)) :
    DeploymentMoves cfg d x d' es := by
  cases x with
  | core a =>
    simp only [deploymentStep, Option.ite_none_right_eq_some, Option.map_eq_some_iff] at hstep
    obtain ⟨hruns, ⟨s, es'⟩, hs, he⟩ := hstep
    cases he
    exact .core hruns hs
  | stopWorker v =>
    simp only [deploymentStep, Option.ite_none_right_eq_some, Option.some.injEq] at hstep
    obtain ⟨hl, he⟩ := hstep
    cases he
    exact .worker (by simp [hl]) (fun h => by cases h)
  | stopScheduler j =>
    simp only [deploymentStep, Option.ite_none_right_eq_some, Option.some.injEq] at hstep
    obtain ⟨hl, he⟩ := hstep
    cases he
    exact .scheduler (by simp [hl]) (fun h => by cases h)
  | leaveWorker v =>
    simp only [deploymentStep, Option.ite_none_right_eq_some, Option.some.injEq] at hstep
    obtain ⟨⟨hl, hhead⟩, he⟩ := hstep
    cases he
    exact .worker (by simp [hl]) (fun _ => hhead)
  | leaveScheduler j =>
    simp only [deploymentStep, Option.ite_none_right_eq_some, Option.some.injEq] at hstep
    obtain ⟨⟨hl, hhead⟩, he⟩ := hstep
    cases he
    exact .scheduler (by simp [hl]) (fun _ => hhead)

/-- **The processes of a deployment are the system.** -/
theorem core_of_run (hr : Lts.Run (deployment cfg) (onCore ok) h d) :
    Lts.Run (system cfg) ok h d.core := by
  refine Lts.Run.invariant (I := fun h d => Lts.Run (system cfg) ok h d.core)
    (fun d hi => ?_) (fun h d x d' es _ ih hok hstep => ?_) hr
  · have hi : DeploymentInitial d := hi
    exact Lts.Run.init hi.core
  cases deployment_moves hstep with
  | core _ hs => exact ih.snoc hok hs
  | worker | scheduler => exact ih

/-- A loop that has returned is at its head. -/
structure Deployment.AtHead (d : Deployment) : Prop where
  worker : ∀ w, d.workerLoop w = .returned → (d.core.workers w).pc.atLoopHead = true
  scheduler : ∀ k, d.schedulerLoop k = .returned → (d.core.schedulers k).atLoopHead = true

theorem atHead_step (hstep : deploymentStep cfg d x = some (d', es)) (hd : d.AtHead) :
    d'.AtHead := by
  cases deployment_moves hstep with
  | @core a s _ hruns hs =>
    refine ⟨fun w (hret : d.workerLoop w = .returned) => ?_,
      fun k (hret : d.schedulerLoop k = .returned) => ?_⟩
    · show (s.workers w).pc.atLoopHead = true
      rw [worker_frame hs (fun c hc => by simp [hc, Deployment.runs, hret] at hruns)]
      exact hd.worker w hret
    · show (s.schedulers k).atLoopHead = true
      rw [scheduler_frame hs (fun c hc => by simp [hc, Deployment.runs, hret] at hruns)]
      exact hd.scheduler k hret
  | @worker _ v l hv hhead =>
    refine ⟨fun w (hret : Function.update d.workerLoop v l w = .returned) => ?_, hd.scheduler⟩
    by_cases hw : w = v
    · subst hw
      rw [Function.update_self] at hret
      exact hhead hret
    · rw [Function.update_of_ne hw] at hret
      exact hd.worker w hret
  | @scheduler _ j l hj hhead =>
    refine ⟨hd.worker, fun k (hret : Function.update d.schedulerLoop j l k = .returned) => ?_⟩
    by_cases hk : k = j
    · subst hk
      rw [Function.update_self] at hret
      exact hhead hret
    · rw [Function.update_of_ne hk] at hret
      exact hd.scheduler k hret

theorem run_atHead (hr : Lts.Run (deployment cfg) (onCore ok) h d) : d.AtHead := by
  refine Lts.Run.invariant (I := fun _ d => d.AtHead) (fun d hi => ⟨fun w _ => ?_, fun k _ => ?_⟩)
    (fun _ _ _ _ _ _ hd _ hstep => atHead_step hstep hd) hr
  · rw [(show DeploymentInitial d from hi).core.workers]
    rfl
  · rw [(show DeploymentInitial d from hi).core.schedulers]
    rfl

theorem idle_of_atLoopHead {pc : WorkerPc} (h : pc.atLoopHead = true) :
    pc.stake = none ∧ pc.popped = none := by
  cases pc with
  | popping rest => exact ⟨rfl, rfl⟩
  | _ => cases h

theorem batch_of_atLoopHead {pc : SchedulerPc} (h : pc.atLoopHead = true) : pc.batch = [] := by
  cases pc with
  | promoting => rfl
  | _ => cases h

/-- No worker dies or raises while it has a job in hand. -/
def allSteady (s : State) : Action → Bool
  | .worker v (.raise _) | .worker v .crash => (s.stake v).isNone
  | _ => true

theorem steady_of_allSteady (s : State) (a : Action) (h : allSteady s a = true) (w : WorkerId) :
    steady w s a = true := by
  cases a with
  | worker v c =>
    cases c with
    | raise | crash =>
      have hnone : (s.stake v).isNone = true := h
      by_cases hv : v = w
      · subst hv
        simp [steady, hnone]
      · simp [steady, hv]
    | _ => rfl
  | _ => rfl

theorem allSteady_of_queueGuard (s : State) (a : Action) (h : queueGuard s a = true) :
    allSteady s a = true := by
  rw [queueGuard, Bool.and_eq_true] at h
  cases a with
  | worker v c =>
    cases c with
    | raise | crash => cases h.1
    | _ => rfl
  | _ => rfl

/-- **A stop leaves no job claimed** when no worker was cut short with one in hand. -/
theorem no_claim_after_stop (hr : Lts.Run (deployment cfg) (onCore allSteady) h d)
    (hstop : d.Stopped) {r : Job} (hrow : d.core.row J = some r) : r.status ≠ .claimed := by
  intro hc
  have hcore := core_of_run hr
  -- the owner would have the job in hand, and it is at the head of its loop
  obtain ⟨w, hw⟩ := Option.ne_none_iff_exists'.mp ((run_shape hcore J r hrow).claimed hc).1
  have hsteady : Lts.Run (system cfg) (steady w) h d.core :=
    hcore.mono (fun s a ha => steady_of_allSteady s a ha w)
  obtain ⟨x, hst, -⟩ := run_inHand hsteady J r hrow hc hw
  have hidle := idle_of_atLoopHead ((run_atHead hr).worker w (hstop.workers w))
  rw [State.stake, hidle.1] at hst
  cases hst

/-- **A graceful stop leaves nothing half done.**  A deployment that is told to stop and
returns, without a crash or an exception on the way, leaves every job pending, settled, or
queued and in the queue of its priority. -/
theorem graceful_stop (hr : Lts.Run (deployment cfg) (onCore queueGuard) h d)
    (hstop : d.Stopped) {r : Job} (hrow : d.core.row J = some r) :
    r.status = .pending ∨ r.status = .sent ∨ r.status = .deadLettered ∨
      r.status = .queued ∧ J ∈ d.core.redis.queue r.priority := by
  have hhead := run_atHead hr
  have hcore := core_of_run hr
  have hclaimed : r.status ≠ .claimed := by
    refine no_claim_after_stop (hr.mono (fun d x hx => ?_)) hstop hrow
    cases x with
    | core a => exact allSteady_of_queueGuard d.core a hx
    | _ => rfl
  have hcov : QueuedCovered d.core J :=
    run_rows (P := fun _ s r => r.status = .queued → Covered s J r.priority) hcore
      (fun _ _ _ _ _ _ hc hok hstep => queuedCovered_step hok hstep hc)
  cases hs : r.status with
  | pending => exact Or.inl rfl
  | sent => exact Or.inr (Or.inl rfl)
  | deadLettered => exact Or.inr (Or.inr (Or.inl rfl))
  | claimed => exact absurd hs hclaimed
  | failed => exact absurd hs (run_shape hcore J r hrow).notFailed
  | queued =>
    refine Or.inr (Or.inr (Or.inr ⟨rfl, ?_⟩))
    rcases hcov r hrow hs with hm | ⟨hb, -, -⟩ | hw
    · exact hm
    · rw [batch_of_atLoopHead (hhead.scheduler _ (hstop.schedulers _))] at hb
      cases hb
    · rw [(idle_of_atLoopHead (hhead.worker _ (hstop.workers _))).2] at hw
      cases hw

theorem returned_step (hstep : deploymentStep cfg d x = some (d', es)) :
    (∀ w, d.workerLoop w = .returned → d'.workerLoop w = .returned) ∧
    ∀ k, d.schedulerLoop k = .returned → d'.schedulerLoop k = .returned := by
  cases deployment_moves hstep with
  | core => exact ⟨fun _ hw => hw, fun _ hk => hk⟩
  | @worker _ v l hv =>
    refine ⟨fun w hw => ?_, fun _ hk => hk⟩
    show Function.update d.workerLoop v l w = .returned
    rwa [Function.update_of_ne (fun (h : w = v) => hv (by rw [← h, hw]))]
  | @scheduler _ j l hj =>
    refine ⟨fun _ hw => hw, fun k hk => ?_⟩
    show Function.update d.schedulerLoop j l k = .returned
    rwa [Function.update_of_ne (fun (h : k = j) => hj (by rw [← h, hk]))]

/-- Worker `1` and scheduler `0`, about to start. -/
def smallDeployment : Deployment where
  core := State.empty
  workerLoop w := if w = 1 then .looping else .returned
  schedulerLoop k := if k = 0 then .looping else .returned

/-- Job `7` is claimed when the signals come, and delivered all the same; job `8` stays in its
queue. -/
def stopping : List DeploymentAction :=
  (.createJob 7 plainJob :: promotion 0 7 ++ .createJob 8 plainJob ::
    [schedule 0, schedule 0, schedule 0] ++ promotion 0 8 ++ claim 1).map .core ++
  [.stopWorker 1, .stopScheduler 0] ++
  [work 1, work 1, work 1 { random := 1 / 2 }, work 1, work 1, work 1 { http := some 200 }, work 1,
    schedule 0, schedule 0, schedule 0].map .core ++ [.leaveWorker 1, .leaveScheduler 0]

theorem graceful_stop_two : ∃ h d r, Lts.Run (deployment {}) (onCore queueGuard) h d ∧
    d.Stopped ∧ (d.core.row 7).map Job.status = some .sent ∧ d.core.row 8 = some r ∧
    (r.status = .pending ∨ r.status = .sent ∨ r.status = .deadLettered ∨
      r.status = .queued ∧ 8 ∈ d.core.redis.queue r.priority) := by
  have hrun : ((deployment {}).exec (onCore queueGuard) smallDeployment stopping).map
      (fun p : Deployment × List Event => ((p.1.core.row 7).map Job.status,
        (p.1.core.row 8).map Job.status, p.1.workerLoop 1, p.1.schedulerLoop 0)) =
      some (some .sent, some .queued, .returned, .returned) := by decide +kernel
  obtain ⟨⟨d, h⟩, he, hf⟩ := Option.map_eq_some_iff.mp hrun
  obtain ⟨h7, hf⟩ := Prod.mk.inj hf
  obtain ⟨h8, hf⟩ := Prod.mk.inj hf
  obtain ⟨hw1, hk0⟩ := Prod.mk.inj hf
  obtain ⟨r, hr8, -⟩ := Option.map_eq_some_iff.mp h8
  have hinit : DeploymentInitial smallDeployment := by
    refine ⟨initial_empty, fun w => ?_, fun k => ?_⟩
    · by_cases hw : w = 1 <;> simp [smallDeployment, hw]
    · by_cases hk : k = 0 <;> simp [smallDeployment, hk]
  have hr := Lts.run_of_exec (S := deployment {}) hinit he
  have hstop : d.Stopped := by
    refine ⟨fun w => ?_, fun k => ?_⟩
    · by_cases hw : w = 1
      · rw [hw]
        exact hw1
      · refine Lts.exec_keeps (P := fun d => d.workerLoop w = .returned) stopping
          (fun _ _ _ _ _ hstep => (returned_step hstep).1 w) he ?_
        simp [smallDeployment, hw]
    · by_cases hk : k = 0
      · rw [hk]
        exact hk0
      · refine Lts.exec_keeps (P := fun d => d.schedulerLoop k = .returned) stopping
          (fun _ _ _ _ _ hstep => (returned_step hstep).2 k) he ?_
        simp [smallDeployment, hk]
  exact ⟨h, d, r, hr, hstop, h7, hr8, graceful_stop hr hstop hr8⟩

end NotifyQueue
