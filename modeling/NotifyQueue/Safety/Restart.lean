import NotifyQueue.Safety.Onward
import NotifyQueue.Safety.Shape
import NotifyQueue.Safety.StaleEntries

/-!
# Starting afresh

However a run has gone, whatever is lost and whoever has died: one idle worker and one
idle scheduler can bring every job to `sent` or `dead_lettered`, by themselves and without
an exception (`every_job_settles`).

As long as there is a live job, time passes until it is due, or its claim or its place in
a queue is stale.  The tick that follows promotes or recovers something, or puts the job
in its queue (`exists_helpful_tick`); then claims get to some job, which is delivered in
an hour that no counter is for (`exists_delivery`).  The rank of the descent is how far
all the jobs are from their end.
-/

namespace NotifyQueue

open KeyedTable

/-- Redis holds finitely many counters, so none is for an hour that is late enough. -/
def Redis.FewCounters (rd : Redis) : Prop :=
  ∃ bound, ∀ key, bound ≤ key.hour → rd.counter key = none

variable {cfg : Settings} {w : WorkerId} {k : SchedulerId} {s t u : State} {a : Action}
  {es h : List Event} {J : JobId} {p : Priority}

/-! ### A tick that helps -/

/-- `J` can be promoted, recovered or put in its queue, whichever it is waiting for; its lock
has expired, and no counter is for this hour or a later one. -/
structure Overdue (cfg : Settings) (s : State) (J : JobId) : Prop where
  due : ∀ r, s.row J = some r → r.sendAt ≤ s.db.now + cfg.schedulerLookaheadSeconds * second
  stale : ∀ r, s.row J = some r → ∀ t, r.heartbeatAt = some t →
    t < s.db.now - cfg.heartbeatTimeout
  left : ∀ r, s.row J = some r → r.updatedAt < s.db.now - cfg.queuedRequeueSeconds * second
  lock : s.redis.lock? J = none
  counter : ∀ key, s.db.now / hour ≤ key.hour → s.redis.counter key = none

/-- A promotion that leaves the live rows as they were has found none that is due. -/
theorem not_due_of_same (hb : 1 ≤ cfg.schedulerBatchSize) {ids : List JobId}
    (hids : promotes cfg s.db [] ids = true)
    (hdb : u.db = s.db.update (promoteIds s.db.now ids))
    (hsame : ∀ J r, s.row J = some r → r.live = true → u.row J = some r) {r : Job}
    (hr : s.row J = some r) : due cfg s.db.now [] r = false := by
  cases hc : ids with
  | nil =>
    rw [hc] at hids
    exact not_due_of_promotes hb hids hr
  | cons id rest =>
    have hmem : id ∈ ids := hc ▸ List.mem_cons_self
    obtain ⟨r', hr', hdue⟩ := promotes_mem hids hmem
    have hrow := hsame id r' hr' (live_of_due hdue)
    have hid : r'.id = id := Table.key_of_find? hr'
    have hset : u.row id = some ((promoteIds s.db.now ids).set r') := by
      rw [State.row, hdb, row_update, hr', Option.map_some, Update.apply_of_applies]
      simp [promoteIds, hid, hmem]
    have hst := congrArg Job.status (Option.some.inj (hset.symm.trans hrow))
    rw [(due_iff.mp hdue).1] at hst
    cases hst

/-- A recovery that leaves a claimed row as it was has found it alive. -/
theorem not_stale_of_same
    (hdb : u.db = s.db.update (recoverStaleClaimed s.db.now cfg.heartbeatTimeout)) {r : Job}
    (hr : s.row J = some r) (hsame : u.row J = some r) :
    (recoverStaleClaimed s.db.now cfg.heartbeatTimeout).applies r = false := by
  rw [← Bool.not_eq_true]
  intro hstale
  have hrow : s.db.row J = some r := hr
  have hset : u.row J = some ((recoverStaleClaimed s.db.now cfg.heartbeatTimeout).set r) := by
    rw [State.row, hdb, row_update, hrow, Option.map_some, Update.apply_of_applies hstale]
  have hst := congrArg Job.status (Option.some.inj (hset.symm.trans hsame))
  rw [(stale_iff.mp hstale).1] at hst
  cases hst

/-- **A tick helps an overdue job**: some job is nearer to its end, or this one is in its
queue. -/
theorem exists_helpful_tick (hb : 1 ≤ cfg.schedulerBatchSize) (hover : Overdue cfg s J)
    (hpc : s.schedulers k = .promoting) {r : Job} (hr : s.row J = some r) (hshape : r.Shape)
    (hlive : r.live = true) : ∃ t, Ticked cfg w k s t ∧ t.schedulers k = .promoting ∧
      (t.db.distance < s.db.distance ∨
        t.row J = some r ∧ r.status = .queued ∧ J ∈ t.redis.queue r.priority) := by
  have hb₀ : 0 ≤ cfg.schedulerBatchSize := by omega
  obtain ⟨u₁, ids, h₁, hpc₁, hids, hdb₁⟩ := exists_promotion (w := w) hb₀ hpc
  obtain ⟨u₂, rows, h₂, hpc₂, hdb₂⟩ := exists_recovery (w := w) cfg hpc₁
  obtain ⟨u₃, h₃, hpc₃⟩ := (Ticked.refl cfg w k u₂).to_requeuing hpc₂
  obtain ⟨t, h₄, hpc₄, hqueue⟩ := exists_requeue (w := w) hb hpc₃ J
  have h₁₂ := h₁.trans h₂
  have h₁₃ := h₁₂.trans h₃
  have h₃₄ := h₃.trans h₄
  have h₂₄ := h₂.trans h₃₄
  refine ⟨t, h₁₃.trans h₄, hpc₄, ?_⟩
  by_cases hlt : t.db.distance < s.db.distance
  · exact Or.inl hlt
  refine Or.inr ?_
  -- nothing has got nearer to its end, so the live rows are all as they were
  have hsame : ∀ u, Ticked cfg w k s u → Closer u t → ∀ J r, s.row J = some r → r.live = true →
      u.row J = some r := fun u hu hut J r hr hlive =>
    hu.closer.row_of_not_lt (fun h => hlt (hut.distance_le.trans_lt h)) hr hlive
  have hpending : r.status ≠ .pending := by
    intro hp
    have hdue := due_iff.mpr ⟨hp, hover.due r hr, List.not_mem_nil⟩
    rw [not_due_of_same hb hids hdb₁ (hsame u₁ h₁ h₂₄.closer) hr] at hdue
    cases hdue
  have hclaimed : r.status ≠ .claimed := by
    intro hc
    have hrow₁ := hsame u₁ h₁ h₂₄.closer J r hr hlive
    have hrow₂ := hsame u₂ h₁₂ h₃₄.closer J r hr hlive
    obtain ⟨t₀, ht₀⟩ := Option.ne_none_iff_exists'.mp (hshape.claimed hc).2.2
    have hnow : u₁.db.now = s.db.now := congrArg Prod.fst h₁.clocks
    have hstale := stale_iff.mpr ⟨hc, t₀, ht₀, hover.stale r hr t₀ ht₀⟩
    rw [← hnow, not_stale_of_same hdb₂ hrow₁ hrow₂] at hstale
    cases hstale
  have hq : r.status = .queued := by
    obtain ⟨hs, hd⟩ := Job.live_iff.mp hlive
    have hf := hshape.notFailed
    cases hst : r.status <;> simp_all
  refine ⟨hsame t (h₁₃.trans h₄) (.of_rows fun _ => rfl) J r hr hlive, hq, ?_⟩
  refine hqueue r (hsame u₃ h₁₃ h₄.closer J r hr hlive) (staleQueued_iff.mpr ⟨hq, ?_⟩)
  have hnow : u₃.db.now = s.db.now := congrArg Prod.fst h₁₃.clocks
  rw [hnow]
  exact hover.left r hr

/-! ### A delivery -/

/-- The outside of a worker that is lucky: its draws are no failures, and its webhooks are
answered. -/
def luckyEnv (cfg : Settings) (now : Time) : Env where
  clock := now
  random := if cfg.deliveryFailureRate < 0 then 0 else cfg.deliveryFailureRate
  http := some 200

/-- Nobody but a worker has run since the clock was at `now`. -/
structure Still (now : Time) (schedulers : SchedulerId → SchedulerPc) (s : State) : Prop where
  now : s.db.now = now
  schedulers : s.schedulers = schedulers

/-- Such a draw is one of `random.random`, and no failure. -/
theorem lucky_random (hf : cfg.deliveryFailureRate < 1) (now : Time) :
    0 ≤ (luckyEnv cfg now).random ∧ (luckyEnv cfg now).random < 1 ∧
      ¬ (luckyEnv cfg now).random < cfg.deliveryFailureRate := by
  unfold luckyEnv
  dsimp only
  split
  · rename_i hneg
    exact ⟨by decide, by decide, Rat.not_lt.mpr (Rat.le_of_lt hneg)⟩
  · rename_i hneg
    exact ⟨Rat.not_lt.mp hneg, hf, Rat.lt_irrefl⟩

theorem orderly_lucky {now : Time} {ks : SchedulerId → SchedulerPc}
    (hf : cfg.deliveryFailureRate < 1) (u : State) (hu : Still now ks u) :
    orderly w k u (.worker w (.run (luckyEnv cfg now))) = true := by
  have hclock : (luckyEnv cfg now).clock = u.db.now := hu.now.symm
  obtain ⟨hlo, hhi, -⟩ := lucky_random hf now
  simp only [orderly, hclock, hlo, hhi, decide_true, Bool.and_self]

theorem still_step {now : Time} {ks : SchedulerId → SchedulerPc} {env : Env} (u v : State)
    (es : List Event) (hu : Still now ks u)
    (hstep : step cfg u (.worker w (.run env)) = some (v, es)) : Still now ks v where
  now := (congrArg Prod.fst (clocks_of_step hstep (by simp))).trans hu.now
  schedulers := by
    funext j
    rw [scheduler_frame hstep (by simp), hu.schedulers]

theorem incr_fresh {rd : Redis} {key : WindowKey} (h : rd.counter key = none) :
    (rd.incrWithTtl key).1 = 1 ∧
      ∀ key', key' ≠ key → (rd.incrWithTtl key).2.counter key' = rd.counter key' := by
  refine ⟨?_, fun key' hne => ?_⟩
  · simp [Redis.incrWithTtl, Redis.counter?, h]
  · simp [Redis.incrWithTtl, Function.update_of_ne hne]

theorem lucky_next {now : Time} {ks : SchedulerId → SchedulerPc} {sh' : Shared} {pc pc' : WorkerPc}
    (hf : cfg.deliveryFailureRate < 1) (hs : Still now ks s) (hpc : (s.workers w).pc = pc)
    (hn : workerNext cfg w (luckyEnv cfg now) s.toShared pc = some (sh', pc', es)) :
    ∃ t, t.toShared = sh' ∧ (t.workers w).pc = pc' ∧ Still now ks t ∧
      Lts.Path (system cfg) (orderly w k) s es t :=
  guarded_path_of_workerNext _ (orderly_lucky hf) still_step hs hpc hn

/-- The row is fetched, and the first increment of the hour lets the delivery through. -/
theorem exists_admitted {now : Time} {ks : SchedulerId → SchedulerPc} {id : JobId} {r : Job}
    (hL : 1 ≤ cfg.rateLimitPerHour) (hf : cfg.deliveryFailureRate < 1) (hs : Still now ks s)
    (hpc : (s.workers w).pc = .fetching id) (hr : s.row id = some r)
    (hcounter : s.redis.counter (windowKey r.recipient now) = none) :
    ∃ h t, Lts.Path (system cfg) (orderly w k) s h t ∧ Still now ks t ∧
      (t.workers w).pc = .delivering r ∧ t.db = s.db ∧
      t.redis = (s.redis.incrWithTtl (windowKey r.recipient now)).2 := by
  have hr : s.db.row id = some r := hr
  obtain ⟨u, hsh, hupc, hu, p⟩ := lucky_next (k := k) hf hs hpc
    (show _ = some (s.toShared, .limiting r, []) by
      simp only [workerNext, hr, Option.map_some])
  obtain ⟨t, hsh', htpc, ht, q⟩ := lucky_next (k := k) hf hu hupc
    (show _ = some ({ s.toShared with
        redis := (s.redis.incrWithTtl (windowKey r.recipient now)).2 }, .delivering r, []) by
      simp only [workerNext, luckyEnv, hsh]
      rw [if_neg (by rw [(incr_fresh hcounter).1]; omega)])
  exact ⟨_, t, p.trans q, ht, htpc, by rw [hsh'], by rw [hsh']⟩

/-- The delivery succeeds, and the outcome write matches. -/
theorem exists_marked {now : Time} {ks : SchedulerId → SchedulerPc} {r : Job}
    (hf : cfg.deliveryFailureRate < 1) (hs : Still now ks s)
    (hpc : (s.workers w).pc = .delivering r) (hr : s.row r.id = some r) (hc : r.status = .claimed)
    (hown : r.workerId = some w) :
    ∃ h t n, Lts.Path (system cfg) (orderly w k) s h t ∧ Still now ks t ∧
      (t.workers w).pc = .releasing r.id (some n) ∧ t.redis = s.redis ∧
      s.db.fetchrow (markSent s.db.now r.id r.workerId) = some t.db := by
  obtain ⟨u, hsh, hupc, hu, p⟩ := lucky_next (k := k) hf hs hpc
    (show _ = some (s.toShared, .succeeding r, [.delivered w r.id]) by
      rw [workerNext, if_neg (lucky_random hf now).2.2])
  have hdb : u.db = s.db := by rw [hsh]
  have hmatch : ∃ db, u.db.fetchrow (markSent u.db.now r.id r.workerId) = some db := by
    refine ⟨_, fetchrow_eq_some.mpr ⟨Table.hits_iff.mpr ⟨r.id, r, ?_, ?_⟩, rfl⟩⟩
    · rw [hdb]
      exact hr
    · exact fenced_iff.mpr ⟨rfl, ⟨rfl, by rw [hown]; exact Option.some_ne_none _⟩, hc⟩
  obtain ⟨db, hfetch⟩ := hmatch
  let n : Notice := ⟨r.id, r.callbackUrl, .sent⟩
  obtain ⟨t, hsh', htpc, ht, q⟩ := lucky_next (k := k) hf hu hupc
    (show _ = some ({ u.toShared with db := db }, .releasing r.id (some n), [.sent w r.id]) by
      simp only [workerNext, handleSuccess, settle, hfetch]
      rfl)
  refine ⟨_, t, n, p.trans q, ht, htpc, by rw [hsh', hsh], ?_⟩
  rw [hsh', ← hdb]
  exact hfetch

/-- The lock is deleted, the webhook answered, and the worker goes back to the queues. -/
theorem exists_released {now : Time} {ks : SchedulerId → SchedulerPc} {id : JobId} {n : Notice}
    (hf : cfg.deliveryFailureRate < 1) (hs : Still now ks s)
    (hpc : (s.workers w).pc = .releasing id (some n)) :
    ∃ h t, Lts.Path (system cfg) (orderly w k) s h t ∧ Still now ks t ∧
      (t.workers w).pc = .popping priorityOrder ∧ t.db.jobs = s.db.jobs ∧
      t.redis.counter = s.redis.counter := by
  obtain ⟨u₁, hsh₁, hpc₁, h₁, p₁⟩ := lucky_next (k := k) hf hs hpc
    (show _ = some ({ s.toShared with redis := s.redis.deleteLock id }, .firing n 1,
      [.dispatched n.jobId n.status]) from rfl)
  obtain ⟨db, hfire⟩ : ∃ db, fireWebhook cfg (luckyEnv cfg now) u₁.db n 1 = (db, none) :=
    ⟨_, Prod.ext rfl (fireWebhook_answered cfg (luckyEnv cfg now) rfl u₁.db n 1)⟩
  obtain ⟨u₂, hsh₂, hpc₂, h₂, p₂⟩ := lucky_next (k := k) hf h₁ hpc₁
    (show _ = some ({ u₁.toShared with db := db }, .joining, []) by
      simp only [workerNext, hfire])
  obtain ⟨t, hsh, hpct, ht, p₃⟩ := lucky_next (k := k) hf h₂ hpc₂
    (show _ = some (u₂.toShared, .popping priorityOrder, []) from rfl)
  refine ⟨_, t, (p₁.trans p₂).trans p₃, ht, hpct, ?_, ?_⟩
  · rw [hsh, hsh₂, (fireWebhook_frame hfire).2.1, hsh₁]
  · rw [hsh, hsh₂, hsh₁, Redis.deleteLock]

/-- **A job in hand can be delivered** in an hour that no counter is for. -/
theorem exists_delivered {now : Time} {ks : SchedulerId → SchedulerPc} {id : JobId} {r : Job}
    (hL : 1 ≤ cfg.rateLimitPerHour) (hf : cfg.deliveryFailureRate < 1) (hs : Still now ks s)
    (hpc : (s.workers w).pc = .fetching id) (hr : s.row id = some r) (hc : r.status = .claimed)
    (hown : r.workerId = some w)
    (hcounter : ∀ key, now / hour ≤ key.hour → s.redis.counter key = none) :
    ∃ h t, Lts.Path (system cfg) (orderly w k) s h t ∧ Still now ks t ∧
      (t.workers w).pc = .popping priorityOrder ∧
      (∀ j, j ≠ id → t.row j = s.row j) ∧
      (∃ r', t.row id = some r' ∧ r'.status = .sent) ∧ t.redis.FewCounters := by
  obtain rfl : r.id = id := Table.key_of_find? hr
  have hfree := hcounter (windowKey r.recipient now) le_rfl
  obtain ⟨_, u₁, p₁, h₁, hpc₁, hdb₁, hredis₁⟩ := exists_admitted (k := k) hL hf hs hpc hr hfree
  obtain ⟨_, u₂, n, p₂, h₂, hpc₂, hredis₂, hfetch⟩ := exists_marked (k := k) hf h₁ hpc₁
    (by rw [State.row, hdb₁]; exact hr) hc hown
  obtain ⟨_, t, p₃, ht, hpct, hjobs, hcount⟩ := exists_released (k := k) hf h₂ hpc₂
  obtain ⟨r₀, hr₀, -, hset, hother, -⟩ :=
    row_of_fetchrow (fun r' hr' => (fenced_iff.mp hr').1) hfetch
  have hrows : ∀ j, t.row j = u₂.db.row j :=
    fun j => congrArg (fun jobs : Table Job => jobs.find? j) hjobs
  refine ⟨_, t, (p₁.trans p₂).trans p₃, ht, hpct, fun j hj => ?_, ?_, now / hour + 1,
    fun key' hkey' => ?_⟩
  · rw [hrows, hother j hj, hdb₁]
    rfl
  · exact ⟨_, (hrows r.id).trans hset, rfl⟩
  · have hne : key' ≠ windowKey r.recipient now := by
      rintro rfl
      exact absurd hkey' (by simp [windowKey])
    rw [hcount, hredis₂, hredis₁, (incr_fresh hfree).2 key' hne]
    exact hcounter key' (Int.lt_of_add_one_le hkey').le

/-- **Claims get to some job** when there is one to claim, past all the stale entries. -/
theorem exists_claim {now : Time} {ks : SchedulerId → SchedulerPc} (hl : 0 < cfg.jobLockTtlSeconds)
    (hf : cfg.deliveryFailureRate < 1) (hs : Still now ks s)
    (hpc : (s.workers w).pc = .popping priorityOrder) (hJ : J ∈ s.redis.queue p)
    (hpass : s.passes J = true) :
    ∃ h t, Lts.Path (system cfg) (orderly w k) s h t ∧ Still now ks t ∧
      t.redis.counter = s.redis.counter ∧ ∃ id r, (t.workers w).pc = .fetching id ∧
        t.db = s.db.claim w (some id) ∧ s.row id = some r ∧ r.status = .queued := by
  refine Lts.exists_path_of_descent
    (I := fun u => Still now ks u ∧ u.db = s.db ∧ u.redis.counter = s.redis.counter ∧
      (u.workers w).pc = .popping priorityOrder ∧ J ∈ u.redis.queue p ∧ u.passes J = true)
    (fun u => (u.redis.waiting priorityOrder).length) (fun u hu _ => ?_)
    ⟨hs, rfl, rfl, hpc, hJ, hpass⟩
  obtain ⟨hu, hdb, hcounter, hupc, hmem, hupass⟩ := hu
  obtain ⟨sh', r, hclaim⟩ := claimFrom_returns (w := w) hl priorityOrder u.toShared
  obtain ⟨t, l, hp, hsh, htpc, ht⟩ :=
    guarded_path_of_claimFrom _ (orderly_lucky (w := w) (k := k) hf) still_step hu hclaim hupc
  have he := claimFrom_effect hclaim
  cases r with
  | some id =>
    obtain ⟨r, hr, hq⟩ := he.queued id rfl
    refine ⟨l, t, hp, Or.inl ⟨ht, ?_, id, r, htpc, ?_, ?_, hq⟩⟩
    · rw [hsh, he.counter, hcounter]
    · rw [hsh, he.db, hdb]
    · rw [State.row, ← hdb]
      exact hr
  | none =>
    -- a call that returns nothing has dropped an entry, and none of `J`
    obtain ⟨v, hvsh, hvpc, hv, hq⟩ := guarded_path_of_workerNext _
      (orderly_lucky (w := w) (k := k) hf) still_step ht htpc
      (show _ = some (t.toShared, .popping priorityOrder, []) from rfl)
    have hvsh : v.toShared = sh' := hvsh.trans hsh
    refine ⟨_, v, hp.trans hq, Or.inr ⟨⟨hv, ?_, ?_, hvpc, ?_, ?_⟩, ?_⟩⟩
    · rw [hvsh, he.db, ← hdb]
      rfl
    · rw [hvsh, he.counter, hcounter]
    · rw [hvsh]
      exact (claimFrom_keeps hclaim hupass hmem).resolve_left (by simp)
    · rw [hvsh]
      exact he.passes (by simp) hupass
    · have hne : u.redis.waiting priorityOrder ≠ [] :=
        List.ne_nil_of_mem (mem_waiting.mpr ⟨p, mem_priorityOrder p, hmem⟩)
      have hshrink := claimFrom_shrinks priorityOrder_nodup hclaim
      rw [if_neg hne] at hshrink
      rw [hvsh]
      omega

/-- **A job in its queue can be delivered**, or another one before it. -/
theorem exists_delivery (hl : 0 < cfg.jobLockTtlSeconds) (hL : 1 ≤ cfg.rateLimitPerHour)
    (hf : cfg.deliveryFailureRate < 1) (hpc : (s.workers w).pc = .popping priorityOrder)
    {r : Job} (hr : s.row J = some r) (hq : r.status = .queued) (hJ : J ∈ s.redis.queue p)
    (hlock : s.redis.lock? J = none)
    (hcounter : ∀ key, s.db.now / hour ≤ key.hour → s.redis.counter key = none) :
    ∃ h t, Lts.Path (system cfg) (orderly w k) s h t ∧
      (t.workers w).pc = .popping priorityOrder ∧ t.schedulers = s.schedulers ∧
      t.redis.FewCounters ∧ Closer s t ∧ t.db.distance < s.db.distance := by
  have hs : Still s.db.now s.schedulers s := ⟨rfl, rfl⟩
  obtain ⟨h, u, hp, hu, hsame, id, r₀, hupc, hdb, hr₀, hq₀⟩ := exists_claim (k := k) hl hf hs hpc hJ
    (passes_iff.mpr ⟨hlock, r, hr, hq⟩)
  have hclaim : ClaimEffect w s.toShared { s.toShared with db := u.db } (some id) :=
    ⟨hdb, fun _ he => Option.some.inj he ▸ ⟨r₀, hr₀, hq₀⟩, rfl, rfl, fun _ _ => rfl⟩
  obtain ⟨hothers, hrow⟩ := hclaim.row
  obtain ⟨r₁, hr₁, -, hclaimed⟩ := hrow id rfl
  obtain ⟨l, t, hq', ht, htpc, hrest, ⟨r', hr', hsent⟩, hfew⟩ := exists_delivered (k := k) hL hf hu
    hupc hclaimed rfl rfl (by rw [hsame]; exact hcounter)
  have hother : ∀ j, j ≠ id → t.row j = s.row j := by
    intro j hj
    rw [hrest j hj]
    exact hothers j (by simpa using Ne.symm hj)
  have hlt : t.distanceAt id < s.distanceAt id := by
    rw [distanceAt_of_row hr', distanceAt_of_row hr₀, hsent, hq₀]
    exact Nat.one_pos
  have hcloser : Closer s t := by
    refine ⟨fun j => ?_, fun j => ?_, fun j r hr _ => ?_⟩
    · by_cases hj : j = id
      · rw [hj, hr', hr₀]
        rfl
      · rw [hother j hj]
    · by_cases hj : j = id
      · rw [hj]
        exact hlt.le
      · exact (distanceAt_congr (hother j hj)).le
    · by_cases hj : j = id
      · rw [hj]
        exact Or.inr hlt
      · exact Or.inl (by rw [hother j hj, hr])
  exact ⟨_, t, hp.trans hq', htpc, ht.schedulers, hfew, hcloser, hcloser.distance_lt hlt⟩

/-! ### Waiting -/

/-- Time passes, for the database and for Redis alike. -/
def State.after (s : State) (d : Time) : State :=
  s.setShared (s.toShared.setClocks (s.db.now + d) (s.redis.now + d))

theorem path_after (cfg : Settings) (w : WorkerId) (k : SchedulerId) {d : Time} (hd : 0 ≤ d) :
    Lts.Path (system cfg) (orderly w k) s [] (s.after d) := by
  refine Lts.Path.single (S := system cfg) (a := .tick (s.db.now + d) (s.redis.now + d)) ?_ rfl
  simp only [orderly, Bool.and_eq_true, decide_eq_true_eq]
  exact ⟨Int.le_add_of_nonneg_right hd, by rw [add_sub_cancel_left, add_sub_cancel_left]⟩

/-- **Every job is overdue some day.** -/
theorem exists_overdue (cfg : Settings) {r : Job} (hr : s.row J = some r)
    (hfew : s.redis.FewCounters) : ∃ d, 0 ≤ d ∧ Overdue cfg (s.after d) J := by
  obtain ⟨bound, hbound⟩ := hfew
  let beat : Time := r.heartbeatAt.getD 0
  let expires : Time := ((s.redis.lock J).map Lock.expiresAt).getD 0
  obtain ⟨d, hd, h₁, h₂, h₃, h₄, h₅⟩ : ∃ d : Time, 0 ≤ d ∧
      r.sendAt ≤ s.db.now + d + cfg.schedulerLookaheadSeconds * second ∧
      beat < s.db.now + d - cfg.heartbeatTimeout ∧
      r.updatedAt < s.db.now + d - cfg.queuedRequeueSeconds * second ∧
      bound * hour ≤ s.db.now + d ∧ expires < s.redis.now + d := by
    refine ⟨max 0 (max (r.sendAt - s.db.now - cfg.schedulerLookaheadSeconds * second)
      (max (beat - s.db.now + cfg.heartbeatTimeout + 1)
        (max (r.updatedAt - s.db.now + cfg.queuedRequeueSeconds * second + 1)
          (max (bound * hour - s.db.now) (expires - s.redis.now + 1))))), ?_⟩
    simp only [Time] at *
    omega
  have hrow : ∀ r', (s.after d).row J = some r' → r' = r := fun r' hr' =>
    Option.some.inj (Eq.trans (Eq.symm hr') hr)
  refine ⟨d, hd, fun r' hr' => ?_, fun r' hr' t ht => ?_, fun r' hr' => ?_, ?_, fun key hkey => ?_⟩
  · rw [hrow r' hr']
    exact h₁
  · rw [hrow r' hr'] at ht
    have hbeat : beat = t := by simp only [beat, ht, Option.getD_some]
    rw [← hbeat]
    exact h₂
  · rw [hrow r' hr']
    exact h₃
  · show (s.redis.lock J).filter (fun l => decide (s.redis.now + d ≤ l.expiresAt)) = none
    rw [Option.filter_eq_none_iff]
    intro l hl
    have hexp : expires = l.expiresAt := by
      simp only [expires, hl, Option.map_some, Option.getD_some]
    rw [decide_eq_true_eq, ← hexp]
    exact not_le.mpr h₅
  · refine hbound key (le_trans ?_ hkey)
    exact (Int.le_ediv_iff_mul_le hour_pos).mpr h₄

/-! ### To the end -/

/-- A state in which worker `w` and scheduler `k` are about to start over. -/
structure Poised (w : WorkerId) (k : SchedulerId) (s : State) : Prop where
  worker : (s.workers w).pc = .popping priorityOrder
  scheduler : s.schedulers k = .promoting
  counters : s.redis.FewCounters

/-- **As long as there is a live job, some job can be brought nearer to its end.** -/
theorem exists_progress (hb : 1 ≤ cfg.schedulerBatchSize) (hl : 0 < cfg.jobLockTtlSeconds)
    (hL : 1 ≤ cfg.rateLimitPerHour) (hf : cfg.deliveryFailureRate < 1) (hs : Poised w k s)
    {r : Job} (hr : s.row J = some r) (hshape : r.Shape) (hlive : r.live = true) :
    ∃ h t, Lts.Path (system cfg) (orderly w k) s h t ∧ Poised w k t ∧ Closer s t ∧
      t.db.distance < s.db.distance := by
  obtain ⟨d, hd, hover⟩ := exists_overdue cfg hr hs.counters
  have hwait : Closer s (s.after d) := .of_rows fun _ => rfl
  obtain ⟨t, ht, htpc, hhelp⟩ := exists_helpful_tick (w := w) (k := k) hb hover hs.scheduler
    (show (s.after d).row J = some r from hr) hshape hlive
  obtain ⟨l, hp⟩ := ht.path
  have hq := (path_after cfg w k hd).trans hp
  have hworker : (t.workers w).pc = .popping priorityOrder := by
    rw [ht.worker]
    exact hs.worker
  rcases hhelp with hlt | ⟨htr, hqueued, hmem⟩
  · refine ⟨_, t, hq, ⟨hworker, htpc, ?_⟩, hwait.trans ht.closer, hlt⟩
    obtain ⟨bound, hbound⟩ := hs.counters
    exact ⟨bound, fun key hkey => by rw [ht.counter]; exact hbound key hkey⟩
  · have hlock : t.redis.lock? J = none := by
      have hnow : t.redis.now = (s.after d).redis.now := congrArg Prod.snd ht.clocks
      have hfree := hover.lock
      rw [Redis.lock?, Option.filter_eq_none_iff] at hfree ⊢
      intro x hx
      rw [hnow]
      exact hfree x (ht.lock J x hx)
    have hcounter : ∀ key, t.db.now / hour ≤ key.hour → t.redis.counter key = none := by
      intro key hkey
      rw [show t.db.now = (s.after d).db.now from congrArg Prod.fst ht.clocks] at hkey
      rw [ht.counter]
      exact hover.counter key hkey
    obtain ⟨l', v, hv, hvpc, hks, hfew, hcloser, hlt⟩ :=
      exists_delivery (k := k) hl hL hf hworker htr hqueued hmem hlock hcounter
    refine ⟨_, v, hq.trans hv, ⟨hvpc, by rw [hks, htpc], hfew⟩,
      (hwait.trans ht.closer).trans hcloser, ?_⟩
    exact hlt.trans_le (hwait.trans ht.closer).distance_le

/-- **Every job can be brought to its end.**  Whatever has happened in a run, an idle
worker and an idle scheduler can go on so that every job that exists is sent or
dead-lettered: by themselves, without an exception, in the order of their code. -/
theorem every_job_settles (hb : 1 ≤ cfg.schedulerBatchSize) (hl : 0 < cfg.jobLockTtlSeconds)
    (hL : 1 ≤ cfg.rateLimitPerHour) (hf : cfg.deliveryFailureRate < 1)
    (hr : Lts.Run (system cfg) always h s) (hs : Poised w k s) :
    ∃ l t, Lts.Path (system cfg) (orderly w k) s l t ∧
      (∀ J, (t.row J).isSome = (s.row J).isSome) ∧
      ∀ J r, t.row J = some r → r.status = .sent ∨ r.status = .deadLettered := by
  -- what holds of every state on the way
  let onWay : State → Prop := fun u =>
    (∀ J, (u.row J).isSome = (s.row J).isSome) ∧ Poised w k u ∧ ∃ h, Lts.Run (system cfg) always h u
  have hstep : ∀ u, onWay u → ¬ (onWay u ∧ u.db.distance = 0) →
      ∃ l t, Lts.Path (system cfg) (orderly w k) u l t ∧
        (onWay t ∧ t.db.distance = 0 ∨ onWay t ∧ t.db.distance < u.db.distance) := by
    rintro u ⟨hrows, hu, e, hru⟩ hnot
    have hpos : u.db.distance ≠ 0 := fun h0 => hnot ⟨⟨hrows, hu, e, hru⟩, h0⟩
    obtain ⟨J, r, hrow, hdist⟩ : ∃ J r, u.row J = some r ∧ r.status.distance ≠ 0 := by
      by_contra hno
      exact hpos (Table.weight_eq_zero_iff.mpr fun J r hrow => by
        by_contra hd
        exact hno ⟨J, r, hrow, hd⟩)
    have hlive : r.live = true := by
      rw [← Bool.not_eq_false]
      exact fun hd => hdist (Job.distance_eq_zero.mpr hd)
    obtain ⟨l, t, hp, ht, hcloser, hlt⟩ :=
      exists_progress hb hl hL hf hu hrow (run_shape hru J r hrow) hlive
    have hrt : Lts.Run (system cfg) always (l ++ e) t := hru.path (hp.mono fun _ _ _ => rfl)
    exact ⟨l, t, hp, Or.inr ⟨⟨fun J => (hcloser.rows J).trans (hrows J), ht, _, hrt⟩, hlt⟩⟩
  obtain ⟨l, t, hp, ⟨hrows, -⟩, hend⟩ := Lts.exists_path_of_descent (I := onWay)
    (fun u => u.db.distance) hstep ⟨fun _ => rfl, hs, h, hr⟩
  refine ⟨l, t, hp, hrows, fun J r hrow => ?_⟩
  have hdead := Job.distance_eq_zero.mp (Table.weight_eq_zero_iff.mp hend J r hrow)
  rw [← Bool.not_eq_true, Job.live_iff] at hdead
  exact or_iff_not_and_not.mpr hdead

/-- Worker `1` dies with job `7` claimed, and so does the scheduler that has queued job `8`. -/
def brokenOff : List Action :=
  [.createJob 7 plainJob, .createJob 8 plainJob, schedule 0 { batch := [7, 8] }, schedule 0] ++
    claim 1 ++ [.worker 1 .crash, .scheduler 0 .crash]

/-- And then Redis loses everything. -/
theorem every_job_settles_broken : ∃ h s, Lts.Run (system {}) always h s ∧
    s.db.jobs.rows.map (fun r => (r.id, r.status)) = [(7, .claimed), (8, .queued)] ∧
    ∃ l t, Lts.Path (system {}) (orderly 2 1) s l t ∧
      (∀ J, (t.row J).isSome = (s.row J).isSome) ∧
      ∀ J r, t.row J = some r → r.status = .sent ∨ r.status = .deadLettered := by
  have hrun : ((system {}).exec always State.empty brokenOff).map
      (fun p : State × List Event => p.1.db.jobs.rows.map (fun r => (r.id, r.status))) =
      some [(7, .claimed), (8, .queued)] := by decide +kernel
  obtain ⟨⟨s, h⟩, he, hrows⟩ := Option.map_eq_some_iff.mp hrun
  have hr := Lts.run_of_exec (S := system {}) initial_empty he
  let fault : Action := .redisFault (fun _ => SortedSet.empty) (fun _ => none) (fun _ => none)
  let t : State := s.setShared { s.toShared with
    redis := ⟨s.redis.now, fun _ => SortedSet.empty, fun _ => none, fun _ => none⟩ }
  have hrt : Lts.Run (system {}) always ([] ++ h) t := hr.snoc (a := fault) rfl rfl
  have hpoised : Poised 2 1 t := by
    refine ⟨?_, ?_, 0, fun key _ => rfl⟩
    · show (s.workers 2).pc = .popping priorityOrder
      rw [worker_of_exec he (by decide)]
      rfl
    · show s.schedulers 1 = .promoting
      rw [scheduler_of_exec he (by decide)]
      rfl
  exact ⟨_, t, hrt, hrows,
    every_job_settles (by decide) (by decide) (by decide) (by decide +kernel) hrt hpoised⟩

end NotifyQueue
