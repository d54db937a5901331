import NotifyQueue.Job.Awaits
import NotifyQueue.Model.System

/-!
# Whose step it was

A step of the system is the step of one process on the shared state, or of the
API, a clock or Redis.  `worker_moves` and `scheduler_moves` read the move of
the process off the step, and the frame lemmas say that every other process
stays where it is.  No later proof unfolds `step` on a process.

A process that is not the one to run stays where it is or lets go of everything
(`idle_worker`, `idle_scheduler`).  `RedisStep` is a step as Redis sees it: the
`await` of a process, or nothing but the clock, or a fault.
-/

namespace NotifyQueue

/-- Worker `w` takes `s` to `t` with the events `es`, by what it chose to do. -/
inductive WorkerMoves (cfg : Settings) (s : State) (w : WorkerId) (t : State) :
    WorkerChoice → List Event → Prop
  | run {env : Env} {es : List Event} :
      workerNext cfg w env s.toShared (s.workers w).pc =
        some (t.toShared, (t.workers w).pc, es) →
      WorkerMoves cfg s w t (.run env) es
  | raise {cut : TxnPoint} :
      workerRaise cut s.toShared (s.workers w).pc = some (t.toShared, (t.workers w).pc) →
      WorkerMoves cfg s w t (.raise cut) []
  | beat {id : JobId} : t.db = s.db.update (updateHeartbeat s.db.now id w) →
      t.redis = s.redis → (t.workers w).pc = (s.workers w).pc → WorkerMoves cfg s w t .beat []
  | loseHeartbeat : t.toShared = s.toShared → (t.workers w).pc = (s.workers w).pc →
      WorkerMoves cfg s w t .loseHeartbeat []
  | crash : t.toShared = s.toShared → (t.workers w).pc = .crashed →
      WorkerMoves cfg s w t .crash []

/-- Scheduler `k` takes `s` to `t` with the events `es`, by what it chose to do. -/
inductive SchedulerMoves (cfg : Settings) (s : State) (k : SchedulerId) (t : State) :
    SchedulerChoice → List Event → Prop
  | run {env : Env} {es : List Event} :
      schedulerNext cfg env s.toShared (s.schedulers k) =
        some (t.toShared, t.schedulers k, es) →
      SchedulerMoves cfg s k t (.run env) es
  | raise {cut : TxnPoint} :
      schedulerRaise cut s.toShared (s.schedulers k) = some (t.toShared, t.schedulers k) →
      SchedulerMoves cfg s k t (.raise cut) []
  | crash : t.toShared = s.toShared → t.schedulers k = .crashed →
      SchedulerMoves cfg s k t .crash []

variable {cfg : Settings} {s t : State} {a : Action} {es h : List Event}

/-! ### The process that moves -/

/-- **A worker's step is a move of the worker.** -/
theorem worker_moves {w : WorkerId} {c : WorkerChoice}
    (h : step cfg s (.worker w c) = some (t, es)) : WorkerMoves cfg s w t c es := by
  obtain ⟨⟨sh, wk, es'⟩, hs, he⟩ := Option.map_eq_some_iff.mp h
  cases he
  have hwk : ((s.setShared sh).setWorker w wk).workers w = wk := by
    rw [State.setWorker_workers, Function.update_self]
  cases c with
  | run env =>
    obtain ⟨⟨sh', pc, es'⟩, hn, he⟩ := Option.map_eq_some_iff.mp hs
    cases he
    exact .run (by rw [hwk]; exact hn)
  | raise cut =>
    obtain ⟨⟨sh', pc⟩, hn, he⟩ := Option.map_eq_some_iff.mp hs
    cases he
    exact .raise (by rw [hwk]; exact hn)
  | beat =>
    obtain ⟨id, -, he⟩ := Option.map_eq_some_iff.mp hs
    cases he
    exact .beat rfl rfl (by rw [hwk])
  | loseHeartbeat =>
    obtain ⟨id, -, he⟩ := Option.map_eq_some_iff.mp hs
    cases he
    exact .loseHeartbeat rfl (by rw [hwk])
  | crash =>
    cases hs
    exact .crash rfl (by rw [hwk])

/-- **A scheduler's step is a move of the scheduler.** -/
theorem scheduler_moves {k : SchedulerId} {c : SchedulerChoice}
    (h : step cfg s (.scheduler k c) = some (t, es)) : SchedulerMoves cfg s k t c es := by
  obtain ⟨⟨sh, pc, es'⟩, hs, he⟩ := Option.map_eq_some_iff.mp h
  cases he
  have hpc : ((s.setShared sh).setScheduler k pc).schedulers k = pc := by
    rw [State.setScheduler_schedulers, Function.update_self]
  cases c with
  | run env => exact .run (by rw [hpc]; exact hs)
  | raise cut =>
    obtain ⟨⟨sh', pc'⟩, hn, he⟩ := Option.map_eq_some_iff.mp hs
    cases he
    exact .raise (by rw [hpc]; exact hn)
  | crash =>
    cases hs
    exact .crash rfl (by rw [hpc])

/-! ### The processes that do not move -/

/-- Which processes a step moves. -/
inductive Moved (s t : State) : Action → Prop
  | worker {w : WorkerId} {c : WorkerChoice} (wk : Worker) :
      t.workers = Function.update s.workers w wk → t.schedulers = s.schedulers →
      Moved s t (.worker w c)
  | scheduler {k : SchedulerId} {c : SchedulerChoice} (pc : SchedulerPc) :
      t.workers = s.workers → t.schedulers = Function.update s.schedulers k pc →
      Moved s t (.scheduler k c)
  | none {a : Action} : t.workers = s.workers → t.schedulers = s.schedulers → Moved s t a

/-- **A step moves one process at most.** -/
theorem step_moved (h : step cfg s a = some (t, es)) : Moved s t a := by
  cases a with
  | worker w c =>
    obtain ⟨⟨sh, wk, es'⟩, -, he⟩ := Option.map_eq_some_iff.mp h
    cases he
    exact .worker wk rfl rfl
  | scheduler k c =>
    obtain ⟨⟨sh, pc, es'⟩, -, he⟩ := Option.map_eq_some_iff.mp h
    cases he
    exact .scheduler pc rfl rfl
  | createJob id body =>
    obtain ⟨jobs, -, he⟩ := Option.map_eq_some_iff.mp h
    cases he
    exact .none rfl rfl
  | retryJob id =>
    simp only [step] at h
    split at h <;> cases h <;> exact .none rfl rfl
  | tick | redisFault =>
    cases h
    exact .none rfl rfl

theorem worker_frame (h : step cfg s a = some (t, es)) {w : WorkerId}
    (hw : ∀ c, a ≠ .worker w c) : t.workers w = s.workers w := by
  cases step_moved h with
  | @worker v c wk hs =>
    have hv : w ≠ v := by
      intro hv
      subst hv
      exact hw c rfl
    rw [hs, Function.update_of_ne hv]
  | scheduler _ hs | none hs => rw [hs]

theorem scheduler_frame (h : step cfg s a = some (t, es)) {k : SchedulerId}
    (hk : ∀ c, a ≠ .scheduler k c) : t.schedulers k = s.schedulers k := by
  cases step_moved h with
  | @scheduler l c pc _ hs =>
    have hl : k ≠ l := by
      intro hl
      subst hl
      exact hk c rfl
    rw [hs, Function.update_of_ne hl]
  | worker _ _ hs | none _ hs => rw [hs]

/-! ### Processes that do not run -/

/-- **A worker that does not run** stays where it is, or an exception or its end
takes it out of everything. -/
theorem idle_worker (h : step cfg s a = some (t, es)) {w : WorkerId}
    (hw : ∀ env, a ≠ .worker w (.run env)) :
    (t.workers w).pc = (s.workers w).pc ∨ (t.workers w).pc = .popping priorityOrder ∨
      (t.workers w).pc = .joining ∨ (t.workers w).pc = .crashed := by
  by_cases ha : ∃ c, a = .worker w c
  case neg => exact Or.inl (by rw [worker_frame h (fun c hc => ha ⟨c, hc⟩)])
  obtain ⟨c, rfl⟩ := ha
  cases worker_moves h with
  | run => exact absurd rfl (hw _)
  | raise hn =>
    rcases (worker_raise hn).2 with hpc | hpc
    · exact Or.inr (Or.inl hpc)
    · exact Or.inr (Or.inr (Or.inl hpc))
  | beat _ _ hpc | loseHeartbeat _ hpc => exact Or.inl hpc
  | crash _ hpc => exact Or.inr (Or.inr (Or.inr hpc))

theorem held_of_idle {β : Type*} {f : WorkerPc → Option β}
    (hf : f (.popping priorityOrder) = none ∧ f .joining = none ∧ f .crashed = none)
    (h : step cfg s a = some (t, es)) {w : WorkerId} (hw : ∀ env, a ≠ .worker w (.run env))
    {x : β} (hx : f (t.workers w).pc = some x) : f (s.workers w).pc = some x := by
  rcases idle_worker h hw with hpc | hpc | hpc | hpc
  · rwa [hpc] at hx
  · rw [hpc, hf.1] at hx
    cases hx
  · rw [hpc, hf.2.1] at hx
    cases hx
  · rw [hpc, hf.2.2] at hx
    cases hx

/-- **A scheduler that does not run** stays where it is, or starts over, or is gone. -/
theorem idle_scheduler (h : step cfg s a = some (t, es)) {k : SchedulerId}
    (hk : ∀ env, a ≠ .scheduler k (.run env)) :
    t.schedulers k = s.schedulers k ∨ t.schedulers k = .promoting ∨
      t.schedulers k = .crashed := by
  by_cases ha : ∃ c, a = .scheduler k c
  case neg => exact Or.inl (scheduler_frame h (fun c hc => ha ⟨c, hc⟩))
  obtain ⟨c, rfl⟩ := ha
  cases scheduler_moves h with
  | run => exact absurd rfl (hk _)
  | raise hn => exact Or.inr (Or.inl (scheduler_raise hn).2)
  | crash _ hpc => exact Or.inr (Or.inr hpc)

theorem worker_run {w : WorkerId} {env : Env}
    (h : step cfg s (.worker w (.run env)) = some (t, es)) :
    workerNext cfg w env s.toShared (s.workers w).pc =
      some (t.toShared, (t.workers w).pc, es) := by
  cases worker_moves h with
  | run hn => exact hn

theorem scheduler_run {k : SchedulerId} {env : Env}
    (h : step cfg s (.scheduler k (.run env)) = some (t, es)) :
    schedulerNext cfg env s.toShared (s.schedulers k) =
      some (t.toShared, t.schedulers k, es) := by
  cases scheduler_moves h with
  | run hn => exact hn

/-! ### Redis -/

/-- A step as Redis sees it. -/
inductive RedisStep (cfg : Settings) (s t : State) (es : List Event) : Action → Prop
  | worker {w : WorkerId} {env : Env} :
      workerNext cfg w env s.toShared (s.workers w).pc =
        some (t.toShared, (t.workers w).pc, es) →
      RedisStep cfg s t es (.worker w (.run env))
  | scheduler {k : SchedulerId} {env : Env} :
      schedulerNext cfg env s.toShared (s.schedulers k) =
        some (t.toShared, t.schedulers k, es) →
      RedisStep cfg s t es (.scheduler k (.run env))
  | idle {a : Action} : (∀ w env, a ≠ .worker w (.run env)) →
      (∀ k env, a ≠ .scheduler k (.run env)) → t.redis.queue = s.redis.queue →
      t.redis.lock = s.redis.lock → t.redis.counter = s.redis.counter →
      RedisStep cfg s t es a
  | fault {queue : Priority → SortedSet ℚ JobId} {lock : JobId → Option Lock}
      {counter : WindowKey → Option Counter} :
      RedisStep cfg s t es (.redisFault queue lock counter)

theorem RedisStep.of_redis (hw : ∀ w env, a ≠ .worker w (.run env))
    (hk : ∀ k env, a ≠ .scheduler k (.run env)) (h : t.redis = s.redis) :
    RedisStep cfg s t es a := .idle hw hk (by rw [h]) (by rw [h]) (by rw [h])

theorem redis_step (h : step cfg s a = some (t, es)) : RedisStep cfg s t es a := by
  cases a with
  | worker w c =>
    cases worker_moves h with
    | run hn => exact .worker hn
    | raise hn => exact .of_redis (by simp) (by simp) (by rw [(worker_raise hn).1])
    | beat _ hredis => exact .of_redis (by simp) (by simp) hredis
    | loseHeartbeat hsh | crash hsh => exact .of_redis (by simp) (by simp) (by rw [hsh])
  | scheduler k c =>
    cases scheduler_moves h with
    | run hn => exact .scheduler hn
    | raise hn => exact .of_redis (by simp) (by simp) (by rw [(scheduler_raise hn).1])
    | crash hsh => exact .of_redis (by simp) (by simp) (by rw [hsh])
  | createJob id body =>
    obtain ⟨jobs, -, he⟩ := Option.map_eq_some_iff.mp h
    cases he
    exact .of_redis (by simp) (by simp) rfl
  | retryJob id =>
    simp only [step] at h
    split at h <;> cases h <;> exact .of_redis (by simp) (by simp) rfl
  | tick x y =>
    cases h
    exact .idle (by simp) (by simp) rfl rfl rfl
  | redisFault queue lock counter => exact .fault

/-! ### Replays -/

def Action.worker? : Action → Option WorkerId
  | .worker w _ => some w
  | _ => none

def Action.scheduler? : Action → Option SchedulerId
  | .scheduler k _ => some k
  | _ => none

/-- A worker without an action in a replay is where it started. -/
theorem worker_of_exec {ok : State → Action → Bool} {as : List Action} {w : WorkerId}
    (he : (system cfg).exec ok s as = some (t, h)) (hw : w ∉ as.filterMap Action.worker?) :
    t.workers w = s.workers w := by
  refine Lts.exec_keeps (P := fun u => u.workers w = s.workers w) as ?_ he rfl
  intro a ha u v es hstep hu
  rw [← hu]
  refine worker_frame hstep (fun c hc => hw ?_)
  exact List.mem_filterMap.mpr ⟨a, ha, by rw [hc]; rfl⟩

theorem scheduler_of_exec {ok : State → Action → Bool} {as : List Action} {k : SchedulerId}
    (he : (system cfg).exec ok s as = some (t, h)) (hk : k ∉ as.filterMap Action.scheduler?) :
    t.schedulers k = s.schedulers k := by
  refine Lts.exec_keeps (P := fun u => u.schedulers k = s.schedulers k) as ?_ he rfl
  intro a ha u v es hstep hu
  rw [← hu]
  refine scheduler_frame hstep (fun c hc => hk ?_)
  exact List.mem_filterMap.mpr ⟨a, ha, by rw [hc]; rfl⟩

/-- The processes without an action among `as` are where they started. -/
structure Bystanders (as : List Action) (s : State) : Prop where
  workers : ∀ w ∉ as.filterMap Action.worker?, s.workers w = Worker.start
  schedulers : ∀ k ∉ as.filterMap Action.scheduler?, s.schedulers k = .promoting

theorem bystanders_step {as : List Action} (ha : a ∈ as) (hstep : step cfg s a = some (t, es))
    (hb : Bystanders as s) : Bystanders as t where
  workers w hw := by
    rw [worker_frame hstep (fun c hc => hw (List.mem_filterMap.mpr ⟨a, ha, by rw [hc]; rfl⟩))]
    exact hb.workers w hw
  schedulers k hk := by
    rw [scheduler_frame hstep (fun c hc => hk (List.mem_filterMap.mpr ⟨a, ha, by rw [hc]; rfl⟩))]
    exact hb.schedulers k hk

/-- **A replay as a run** of a guard that looks at every process: it is enough to
look at those that take part. -/
theorem run_of_replay_among {β : Type*} (cfg : Settings) (ok : State → Action → Bool)
    {ok' : State → Action → Bool} (as : List Action) (f : State × List Event → β) (v : β)
    (hok : ∀ u a, Bystanders as u → ok u a = true → ok' u a = true)
    (he : ((system cfg).exec ok State.empty as).map f = some v) :
    ∃ t h, Lts.Run (system cfg) ok' h t ∧ f (t, h) = v := by
  obtain ⟨⟨t, h⟩, he, hf⟩ := Option.map_eq_some_iff.mp he
  refine ⟨t, h, ⟨State.empty, initial_empty, ?_⟩, hf⟩
  exact Lts.path_of_exec_of (P := Bystanders as) as
    (fun a ha u v es hstep hb => bystanders_step ha hstep hb) (fun a _ u hb => hok u a hb) he
    ⟨fun _ _ => rfl, fun _ _ => rfl⟩

end NotifyQueue
