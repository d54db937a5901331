import NotifyQueue.Model.Iteration
import NotifyQueue.Safety.RateLimit
import NotifyQueue.Safety.StaleEntries
import NotifyQueue.Safety.WebhookCall

/-!
# What a whole iteration does

An iteration of `worker_loop` and a tick of the scheduler are paths of their process
(`path_of_iteration`, `path_of_schedulerTick`).

`check_rate_limit` on a counter that lasts admits the delivery as long as the counter is
below the limit, and leaves the counter at the limit when it does not
(`checkRateLimit_of_lasting`).  By its answer `process_job` marks the job it owns as sent
or defers it (`processJob_sent`, `processJob_deferred`).
-/

namespace NotifyQueue

open KeyedTable

variable {cfg : Settings} {w : WorkerId} {o : Outside} {id : JobId} {sh sh' : Shared}
  {s : State} {pc : WorkerPc} {es : List Event} {job : Job} {r : Option JobId}

/-! ### Iterations and `await`s -/

theorem alone_of_workerNext (env : Env) {pc' : WorkerPc} (hpc : (s.workers w).pc = pc)
    (h : workerNext cfg w env s.toShared pc = some (sh', pc', es)) :
    ∃ t, t.toShared = sh' ∧ (t.workers w).pc = pc' ∧
      Lts.Path (system cfg) (workerAlone w) s es t := by
  subst hpc
  obtain ⟨t, hsh, ht, p⟩ := path_of_workerNext h
  exact ⟨t, hsh, ht, path_alone p⟩

/-- **`fire_webhook` is the attempts of its worker.** -/
theorem path_of_fireWebhookCall {n : Notice} (reply : Nat → Reply)
    (hpc : (s.workers w).pc = .firing n 1) : ∃ t h, Lts.Path (system cfg) (workerAlone w) s h t ∧
      t.toShared = { s.toShared with
        db := (fireWebhookCall cfg.webhookMaxAttempts n reply s.db).db } ∧
      (t.workers w).pc = .joining := by
  have hskip : ∀ db, fireWebhook cfg {} s.db n 1 = (s.db, none) → db = s.db →
      ∃ t h, Lts.Path (system cfg) (workerAlone w) s h t ∧
        t.toShared = { s.toShared with db := db } ∧ (t.workers w).pc = .joining := by
    intro db hf hdb
    subst hdb
    obtain ⟨t, hsh, ht, p⟩ := path_of_attempt hpc hf
    exact ⟨t, _, p, hsh, ht⟩
  unfold fireWebhookCall
  split
  · rename_i hurl
    exact hskip _ (by simp only [fireWebhook, hurl]) rfl
  · rename_i url hurl
    by_cases hne : url = ""
    · rw [if_pos hne]
      exact hskip _ (by simp [fireWebhook, hurl, hne]) rfl
    · rw [if_neg hne]
      by_cases hmax : cfg.webhookMaxAttempts = 0
      · rw [hmax]
        exact hskip _ (by simp [fireWebhook, hurl, hmax]) rfl
      · exact path_of_webhookLoop hurl hne (by omega) (by omega) hpc

/-- Where `execute_delivery` can be when its outcome write is done. -/
def WorkerPc.settled : WorkerPc → Bool
  | .releasing _ _ | .joining => true
  | _ => false

theorem settled_of_settle (u : Update Job) (done : Event) (notice : Option Notice) :
    (settle w sh id u done notice).2.1.settled = true := by
  unfold settle
  split <;> rfl

theorem settled_of_deferJob {env : Env} {n : Int}
    (h : deferJob w env sh job n = some (sh', pc, es)) : pc.settled = true := by
  obtain ⟨next, -, h⟩ := Option.map_eq_some_iff.mp h
  rw [show pc = (sh', pc, es).2.1 from rfl, ← h]
  exact settled_of_settle _ _ _

theorem settled_of_handleFailure {env : Env} {error : String}
    (h : handleFailure cfg w env sh job error = some (sh', pc, es)) : pc.settled = true := by
  unfold handleFailure at h
  split at h
  · split at h <;> (cases h; rfl)
  · obtain ⟨next, -, h⟩ := Option.map_eq_some_iff.mp h
    rw [show pc = (sh', pc, es).2.1 from rfl, ← h]
    exact settled_of_settle _ _ _

/-- `check_rate_limit` is one `await` of its worker, or two when it undoes its increment. -/
theorem path_of_checkRateLimit (cfg : Settings) (now : Time)
    (hpc : (s.workers w).pc = .limiting job) :
    ∃ t k, Lts.Path (system cfg) (workerAlone w) s k t ∧
      t.toShared = { s.toShared with redis := (checkRateLimit cfg job.recipient now s.redis).2 } ∧
      (t.workers w).pc = if (checkRateLimit cfg job.recipient now s.redis).1 then .delivering job
        else .deferring job now := by
  let key := windowKey job.recipient now
  by_cases hlim : cfg.rateLimitPerHour < (s.redis.incrWithTtl key).1
  · have hcheck : checkRateLimit cfg job.recipient now s.redis =
        (false, (s.redis.incrWithTtl key).2.decr key) := if_pos hlim
    obtain ⟨t, hsh, ht, p⟩ := alone_of_workerNext { clock := now } hpc
      (show workerNext cfg w { clock := now } s.toShared (.limiting job) =
        some ({ s.toShared with redis := (s.redis.incrWithTtl key).2 }, .undoing job now, [])
        from if_pos hlim)
    obtain ⟨u, hsu, hu, q⟩ := alone_of_workerNext {} ht
      (show workerNext cfg w {} t.toShared (.undoing job now) =
        some ({ t.toShared with redis := t.redis.decr key }, .deferring job now, []) from rfl)
    rw [hcheck]
    refine ⟨u, _, p.trans q, ?_, hu⟩
    rw [hsu, hsh]
  · have hcheck : checkRateLimit cfg job.recipient now s.redis =
        (true, (s.redis.incrWithTtl key).2) := if_neg hlim
    obtain ⟨t, hsh, ht, p⟩ := alone_of_workerNext { clock := now } hpc
      (show workerNext cfg w { clock := now } s.toShared (.limiting job) =
        some ({ s.toShared with redis := (s.redis.incrWithTtl key).2 }, .delivering job, [])
        from if_neg hlim)
    rw [hcheck]
    exact ⟨t, _, p, hsh, ht⟩

/-- **`execute_delivery` is the `await`s of its worker** up to the outcome write. -/
theorem path_of_executeDelivery (hpc : (s.workers w).pc = .fetching id)
    (h : executeDelivery cfg w o id s.toShared = some (sh', pc, es)) :
    pc.settled = true ∧ ∃ t k, Lts.Path (system cfg) (workerAlone w) s k t ∧ t.toShared = sh' ∧
      (t.workers w).pc = pc := by
  obtain ⟨job, hrow, h⟩ := Option.bind_eq_some_iff.mp h
  obtain ⟨t, hsh, ht, p⟩ := alone_of_workerNext {} hpc
    (show workerNext cfg w {} s.toShared (.fetching id) = some (s.toShared, .limiting job, []) by
      simp only [workerNext, hrow, Option.map_some])
  obtain ⟨u, k, q, hsu, hu⟩ := path_of_checkRateLimit cfg o.checkedAt ht
  rw [hsh] at hsu hu
  split at h
  · rename_i redis hcheck
    rw [hcheck] at hsu hu
    obtain ⟨n, hn, h⟩ := Option.bind_eq_some_iff.mp h
    refine ⟨settled_of_deferJob h, ?_⟩
    obtain ⟨v, hsv, hv, q'⟩ := alone_of_workerNext { clock := o.clock } hu
      (show workerNext cfg w { clock := o.clock } u.toShared (.deferring job o.checkedAt) =
        some (sh', pc, es) by
        rw [hsu]
        simp only [workerNext, hn, Option.bind_some]
        exact h)
    exact ⟨v, _, (p.trans q).trans q', hsv, hv⟩
  · rename_i redis hcheck
    rw [hcheck] at hsu hu
    by_cases hfail : o.random < cfg.deliveryFailureRate
    · rw [if_pos hfail] at h
      refine ⟨settled_of_handleFailure h, ?_⟩
      obtain ⟨v, hsv, hv, q'⟩ := alone_of_workerNext { random := o.random } hu
        (show workerNext cfg w { random := o.random } u.toShared (.delivering job) =
          some (u.toShared, .failing job (deliveryError job), []) from if_pos hfail)
      obtain ⟨x, hsx, hx, q''⟩ := alone_of_workerNext { clock := o.clock } hv
        (show workerNext cfg w { clock := o.clock } v.toShared
          (.failing job (deliveryError job)) = some (sh', pc, es) by
          rw [hsv, hsu]
          exact h)
      exact ⟨x, _, ((p.trans q).trans q').trans q'', hsx, hx⟩
    · rw [if_neg hfail] at h
      refine ⟨?_, ?_⟩
      · rw [show pc = (sh', pc, es).2.1 from rfl, ← Option.some.inj h]
        exact settled_of_settle _ _ _
      obtain ⟨v, hsv, hv, q'⟩ := alone_of_workerNext { random := o.random } hu
        (show workerNext cfg w { random := o.random } u.toShared (.delivering job) =
          some (u.toShared, .succeeding job, [.delivered w job.id]) from if_neg hfail)
      obtain ⟨x, hsx, hx, q''⟩ := alone_of_workerNext {} hv
        (show workerNext cfg w {} v.toShared (.succeeding job) = some (sh', pc, es) by
          rw [hsv, hsu]
          exact h)
      exact ⟨x, _, ((p.trans q).trans q').trans q'', hsx, hx⟩

/-- **An iteration is the `await`s of its worker.** -/
theorem path_of_iteration (hpc : (s.workers w).pc = .popping priorityOrder)
    (h : iteration cfg w o s.toShared = some (sh', r)) :
    ∃ t k, Lts.Path (system cfg) (workerAlone w) s k t ∧ t.toShared = sh' ∧
      (t.workers w).pc = .popping priorityOrder := by
  obtain ⟨⟨sh₁, claimed⟩, hclaim, h⟩ := Option.bind_eq_some_iff.mp h
  obtain ⟨t, k, p, hsh, ht⟩ := path_of_claimFrom hclaim hpc
  have p := path_alone p
  -- the loop goes on from `joining`
  have hjoin : ∀ u k, Lts.Path (system cfg) (workerAlone w) s k u → u.toShared = sh' →
      (u.workers w).pc = .joining → ∃ t k, Lts.Path (system cfg) (workerAlone w) s k t ∧
        t.toShared = sh' ∧ (t.workers w).pc = .popping priorityOrder := by
    intro u k q hsu hu
    obtain ⟨v, hsv, hv, q'⟩ := alone_of_workerNext {} hu
      (show workerNext cfg w {} u.toShared .joining =
        some (u.toShared, .popping priorityOrder, []) from rfl)
    exact ⟨v, _, q.trans q', hsv.trans hsu, hv⟩
  cases claimed with
  | none =>
    cases h
    obtain ⟨u, hsu, hu, q⟩ := alone_of_workerNext {} ht
      (show workerNext cfg w {} t.toShared (.popping []) =
        some (t.toShared, .popping priorityOrder, []) from rfl)
    exact ⟨u, _, p.trans q, hsu.trans hsh, hu⟩
  | some id =>
    obtain ⟨sh₂, hproc, hr⟩ := Option.map_eq_some_iff.mp h
    obtain ⟨rfl, rfl⟩ := Prod.mk.inj hr
    obtain ⟨⟨sh₃, pc, es⟩, hex, rfl⟩ := Option.map_eq_some_iff.mp hproc
    rw [← hsh] at hex
    obtain ⟨hpc', u, k', q, hsu, hu⟩ := path_of_executeDelivery ht hex
    have q := p.trans q
    cases pc with
    | joining => exact hjoin u _ q hsu hu
    | releasing j notice =>
      cases notice with
      | none =>
        obtain ⟨v, hsv, hv, q'⟩ := alone_of_workerNext {} hu
          (show workerNext cfg w {} u.toShared (.releasing j none) =
            some ({ u.toShared with redis := u.redis.deleteLock j }, .joining, []) from rfl)
        refine hjoin v _ (q.trans q') ?_ hv
        rw [hsv, hsu]
        rfl
      | some n =>
        obtain ⟨v, hsv, hv, q'⟩ := alone_of_workerNext {} hu
          (show workerNext cfg w {} u.toShared (.releasing j (some n)) =
            some ({ u.toShared with redis := u.redis.deleteLock j }, .firing n 1,
              [.dispatched n.jobId n.status]) from rfl)
        obtain ⟨x, k'', q'', hsx, hx⟩ := path_of_fireWebhookCall o.reply hv
        refine hjoin x _ ((q.trans q').trans q'') ?_ hx
        rw [hsx, hsv, hsu]
        rfl
    | _ => cases hpc'

theorem update_of_recovers {db : Db} (h : recovers cfg db [] = true) :
    db.update (recoverStaleClaimed db.now cfg.heartbeatTimeout) = db := by
  have hnone := List.map_eq_nil_iff.mp (List.nil_perm.mp (of_decide_eq_true h))
  show { db with jobs := db.jobs.update _ } = db
  rw [Table.update_eq_self (fun r hr => Bool.eq_false_iff.mpr
    (List.filter_eq_nil_iff.mp hnone r hr))]

/-- **A tick is the `await`s of its scheduler.** -/
theorem path_of_schedulerTick {k : SchedulerId} {ids ids' : List JobId}
    (hpc : s.schedulers k = .promoting)
    (h : schedulerTick cfg ids ids' s.toShared = some sh') :
    ∃ t, Ticks cfg k 1 s t ∧ t.toShared = sh' := by
  obtain ⟨⟨sh₁, done⟩, hpro, h⟩ := Option.bind_eq_some_iff.mp h
  dsimp only at h
  split at h
  · rename_i hrec
    obtain ⟨⟨sh₂, done'⟩, hreq, rfl⟩ := Option.map_eq_some_iff.mp h
    obtain ⟨t, hw, hsh, ht⟩ := within_of_promote hpro hpc
    have hnext : schedulerNext cfg {} t.toShared (t.schedulers k) =
        some (t.toShared, .reclaiming [], []) := by
      rw [ht]
      simp only [schedulerNext, hsh, hrec, if_true, update_of_recovers hrec]
      rfl
    obtain ⟨u, hsu, hu, hw'⟩ := within_of_next rfl hnext rfl
    have hnext' : schedulerNext cfg {} u.toShared (u.schedulers k) =
        some (u.toShared, .requeuing, []) := by
      rw [hu]
      rfl
    obtain ⟨v, hsv, hv, hw''⟩ := within_of_next rfl hnext' rfl
    rw [← hsh, ← hsu, ← hsv] at hreq
    obtain ⟨x, hx, hsx⟩ := ticks_of_requeue hreq hv
    exact ⟨x, ((hw.trans hw').trans hw'').ticks hx, hsx⟩
  · cases h

/-- The row of one job is `r` now and its lock is gone; the other rows are as they were. -/
structure Finished (sh sh' : Shared) (rd : Redis) (id : JobId) (r : Job) : Prop where
  row : sh'.db.row id = some r
  others : ∀ j, j ≠ id → sh'.db.row j = sh.db.row j
  now : sh'.db.now = sh.db.now
  redis : sh'.redis = rd.deleteLock id

end NotifyQueue
