import NotifyQueue.Job.Clocks
import NotifyQueue.Job.Effect

/-!
# A scheduler by itself

The three statements of a tick, when nobody else holds a row and the limit lets
every candidate through: promotion leaves no due row pending (`promote_all`),
recovery no stale row claimed (`recover_all`), and the requeue takes every stale
queued row (`requeue_all`).

`Advance` lists how a scheduler moves through a tick.  The parts of a tick, one
`await` after another, are `promotion_part`, `exists_recover`, `reclaiming_part` and
`requeue_part`: whatever the database answers, the scheduler comes to the end of each.
`Ticks` counts the ticks it completes while everybody else stands still, and
`exists_tick` says that there is always one.
-/

namespace NotifyQueue

open KeyedTable

/-- A job that is neither sent nor dead-lettered. -/
def Job.live (r : Job) : Bool := decide (r.status ≠ .sent) && decide (r.status ≠ .deadLettered)

theorem Job.live_iff {r : Job} : r.live = true ↔ r.status ≠ .sent ∧ r.status ≠ .deadLettered := by
  simp only [Job.live, Bool.and_eq_true, decide_eq_true_eq]

/-- How many jobs are live. -/
def Db.liveCount (db : Db) : Nat := (db.jobs.rows.filter Job.live).length

variable {cfg : Settings} {env : Env} {sh sh' : Shared} {pc pc' : SchedulerPc} {es : List Event}
  {J : JobId}

theorem filter_le_liveCount (db : Db) {p : Job → Bool} (hp : ∀ r, p r = true → r.live = true) :
    (db.jobs.rows.filter p).length ≤ db.liveCount := by
  rw [Db.liveCount, ← List.countP_eq_length_filter, ← List.countP_eq_length_filter]
  exact List.countP_mono_left (fun r _ => hp r)

theorem live_of_due {now : Time} {locked : List JobId} {r : Job}
    (h : due cfg now locked r = true) : r.live = true := by
  rw [Job.live_iff, (due_iff.mp h).1]
  decide

theorem live_of_staleQueued {now : Time} {r : Job} (h : staleQueued cfg now r = true) :
    r.live = true := by
  rw [Job.live_iff, (staleQueued_iff.mp h).1]
  decide

/-- The limit lets as many rows through as are live. -/
def Db.Fits (cfg : Settings) (db : Db) : Prop := (db.liveCount : Int) ≤ cfg.schedulerBatchSize

theorem Db.Fits.filter_le {db : Db} (h : db.Fits cfg) {p : Job → Bool}
    (hp : ∀ r, p r = true → r.live = true) :
    (db.jobs.rows.filter p).length ≤ cfg.schedulerBatchSize.toNat := by
  have hle := filter_le_liveCount db hp
  unfold Db.Fits at h
  omega

/-! ### The three statements -/

/-- **A promotion leaves no due row pending.** -/
theorem promote_all (h : schedulerNext cfg env sh .promoting = some (sh', pc', es))
    (hlocked : env.locked = []) (hfits : sh.db.Fits cfg)
    (hdue : ∀ r, sh.db.row J = some r → r.status = .pending →
      r.sendAt ≤ sh.db.now + cfg.schedulerLookaheadSeconds * second)
    {r : Job} (hr : sh'.db.row J = some r) : r.status ≠ .pending := by
  cases scheduler_await h with
  | promote hp hdb =>
    subst hdb
    intro hpend
    obtain ⟨r₀, hr₀, rfl⟩ := Option.map_eq_some_iff.mp ((row_update _ _ _).symm.trans hr)
    by_cases ha : (promoteIds sh.db.now env.batch).applies r₀ = true
    · rw [Update.apply_of_applies ha] at hpend
      cases hpend
    · rw [Update.apply_of_not (Bool.eq_false_iff.mpr ha)] at hpend
      have hd : due cfg sh.db.now env.locked r₀ = true := by
        simp [due, hpend, hdue r₀ hr₀ hpend, hlocked]
      have hmem := Table.mem_of_picks (promotes_picks hp)
        (hfits.filter_le (fun r hr => live_of_due hr))
        (List.mem_filter.mpr ⟨Table.mem_of_find? hr₀, hd⟩)
      exact ha (decide_eq_true hmem)

/-- **A recovery leaves no stale row claimed.** -/
theorem recover_all (h : schedulerNext cfg env sh .recovering = some (sh', pc', es))
    (hstale : ∀ r, sh.db.row J = some r → r.status = .claimed →
      (recoverStaleClaimed sh.db.now cfg.heartbeatTimeout).applies r = true)
    {r : Job} (hr : sh'.db.row J = some r) : r.status ≠ .claimed := by
  cases scheduler_await h with
  | recover _ hdb =>
    subst hdb
    intro hc
    obtain ⟨r₀, hr₀, rfl⟩ := Option.map_eq_some_iff.mp ((row_update _ _ _).symm.trans hr)
    by_cases ha : (recoverStaleClaimed sh.db.now cfg.heartbeatTimeout).applies r₀ = true
    · rw [Update.apply_of_applies ha] at hc
      cases hc
    · rw [Update.apply_of_not (Bool.eq_false_iff.mpr ha)] at hc
      exact ha (hstale r₀ hr₀ hc)

/-- **A requeue takes every stale queued row.** -/
theorem requeue_all (h : schedulerNext cfg env sh .requeuing = some (sh', pc', es))
    (hfits : sh.db.Fits cfg) {r : Job} (hr : sh.db.row J = some r)
    (hstale : staleQueued cfg sh.db.now r = true) : pc' = .enqueuing
      (sh.db.returning Job.queueRow env.batch) true ∧
      r.queueRow ∈ sh.db.returning Job.queueRow env.batch := by
  cases scheduler_await h with
  | requeue hq hpc =>
    simp only [requeues, Bool.and_eq_true] at hq
    have hmem := Table.mem_of_picks hq.2 (hfits.filter_le (fun r hr => live_of_staleQueued hr))
      (List.mem_filter.mpr ⟨Table.mem_of_find? hr, hstale⟩)
    have hid : r.id = J := Table.key_of_find? hr
    refine ⟨?_, mem_returning.mpr ⟨J, hid ▸ hmem, r, hr, rfl⟩⟩
    rcases hpc with ⟨hb, -⟩ | rfl
    · rw [hb] at hmem
      cases hmem
    · rfl

/-! ### Through a tick -/

/-- How far a scheduler is in its tick. -/
def SchedulerPc.stage : SchedulerPc → Nat
  | .promoting | .crashed => 0
  | .enqueuing _ false | .recovering => 1
  | .reclaiming _ | .burying _ _ | .releasing _ _ | .firing _ _ _ | .requeuing => 2
  | .enqueuing _ true => 3

def SchedulerPc.isPromoting : SchedulerPc → Bool
  | .promoting => true
  | _ => false

/-- How a scheduler moves through a tick. -/
inductive Advance : SchedulerPc → SchedulerPc → Prop
  | promoted {pc' : SchedulerPc} : pc'.stage = 1 → Advance .promoting pc'
  | enqueued {rows : List QueueRow} : Advance (.enqueuing rows false) .recovering
  | recovered {rows : List RecoveredRow} : Advance .recovering (.reclaiming rows)
  | settled {pc pc' : SchedulerPc} : pc.stage = 2 → pc ≠ .requeuing → pc'.stage = 2 →
      Advance pc pc'
  | requeued {pc' : SchedulerPc} : pc'.stage = 3 ∨ pc' = .promoting → Advance .requeuing pc'
  | finished {rows : List QueueRow} : Advance (.enqueuing rows true) .promoting

theorem schedulerNext_advance (h : schedulerNext cfg env sh pc = some (sh', pc', es)) :
    Advance pc pc' := by
  cases scheduler_await h with
  | promote _ _ hpc => rcases hpc with ⟨-, rfl⟩ | rfl <;> exact .promoted rfl
  | enqueue => exact .enqueued
  | reenqueue => exact .finished
  | recover => exact .recovered
  | requeue _ hpc =>
    rcases hpc with ⟨-, rfl⟩ | rfl
    · exact .requeued (Or.inr rfl)
    · exact .requeued (Or.inl rfl)
  | _ => exact .settled rfl (by simp) rfl

/-- The rows with `p`, as an answer of the database. -/
def Db.idsOf (db : Db) (p : Job → Bool) : List JobId := (db.jobs.rows.filter p).map Job.id

theorem picks_idsOf {db : Db} (hfits : db.Fits cfg) {p : Job → Bool}
    (hp : ∀ r, p r = true → r.live = true) : Table.picks (db.jobs.rows.filter p)
      cfg.schedulerBatchSize.toNat (db.idsOf p) = true :=
  Table.picks_keys (db.jobs.nodup.sublist (List.filter_sublist.map _)) (hfits.filter_le hp)

theorem batchSize_nonneg {db : Db} (hfits : db.Fits cfg) : 0 ≤ cfg.schedulerBatchSize := by
  unfold Db.Fits at hfits
  omega

theorem promotes_idsOf {db : Db} (hfits : db.Fits cfg) :
    promotes cfg db [] (db.idsOf (due cfg db.now [])) = true := by
  simp only [promotes, Bool.and_eq_true, decide_eq_true_eq, List.all_eq_true, Bool.or_eq_true]
  refine ⟨⟨batchSize_nonneg hfits, picks_idsOf hfits (fun r hr => live_of_due hr)⟩, ?_⟩
  intro r hr
  exact Or.inl (List.mem_map_of_mem hr)

theorem recovers_idsOf (db : Db) : recovers cfg db
    (db.idsOf (recoverStaleClaimed db.now cfg.heartbeatTimeout).applies) = true :=
  decide_eq_true (List.Perm.refl _)

theorem requeues_idsOf {db : Db} (hfits : db.Fits cfg) :
    requeues cfg db (db.idsOf (staleQueued cfg db.now)) = true := by
  simp only [requeues, Bool.and_eq_true, decide_eq_true_eq]
  exact ⟨batchSize_nonneg hfits, picks_idsOf hfits (fun r hr => live_of_staleQueued hr)⟩

/-! ### The parts of a tick -/

/-- One `await` of a scheduler, while nobody else locks a row. -/
def Awaits (cfg : Settings) (x y : Shared × SchedulerPc) : Prop :=
  ∃ env es, env.locked = [] ∧ schedulerNext cfg env x.1 x.2 = some (y.1, y.2, es)

/-- Any number of them that do not end the tick. -/
def Part (cfg : Settings) : Shared × SchedulerPc → Shared × SchedulerPc → Prop :=
  Relation.ReflTransGen (fun x y => Awaits cfg x y ∧ y.2.isPromoting = false)

theorem Part.trans {x y z : Shared × SchedulerPc} (h : Part cfg x y) (h' : Part cfg y z) :
    Part cfg x z := Relation.ReflTransGen.trans h h'

theorem part_of_next (hlocked : env.locked = [])
    (h : schedulerNext cfg env sh pc = some (sh', pc', es)) (hpc : pc'.isPromoting = false) :
    Part cfg (sh, pc) (sh', pc') := .single ⟨⟨env, es, hlocked, h⟩, hpc⟩

/-- A promotion with the answer `ids`, and the pipeline after it. -/
theorem promotion_part (sh : Shared) {ids : List JobId} (hids : promotes cfg sh.db [] ids = true) :
    Part cfg (sh, .promoting) (⟨sh.db.update (promoteIds sh.db.now ids),
      sh.redis.enqueue ((sh.db.update (promoteIds sh.db.now ids)).returning Job.queueRow ids)⟩,
      .recovering) := by
  let batch : Env := { batch := ids }
  let db := sh.db.update (promoteIds sh.db.now ids)
  have hn : schedulerNext cfg batch sh .promoting =
      some ({ sh with db := db }, if ids.isEmpty then .recovering
        else .enqueuing (db.returning Job.queueRow ids) false, ids.map .promoted) := by
    simp only [schedulerNext, batch, db, hids, if_true]
  have hfirst := part_of_next rfl hn (by split <;> rfl)
  cases ids with
  | nil => exact hfirst
  | cons id rest => exact hfirst.trans (.single ⟨⟨{}, [], rfl, rfl⟩, rfl⟩)

/-- The statement of a recovery goes through, with some rows. -/
theorem exists_recover (cfg : Settings) (sh : Shared) : ∃ env rows es, env.locked = [] ∧
    schedulerNext cfg env sh .recovering =
      some ({ sh with db := sh.db.update (recoverStaleClaimed sh.db.now cfg.heartbeatTimeout) },
        .reclaiming rows, es) := by
  let stale := recoverStaleClaimed sh.db.now cfg.heartbeatTimeout
  let batch : Env := { batch := sh.db.idsOf stale.applies }
  refine ⟨batch, (sh.db.update stale).returning Job.recoveredRow batch.batch,
    batch.batch.map .reclaimed, rfl, ?_⟩
  simp only [schedulerNext, batch, stale, recovers_idsOf, if_true]

theorem fireWebhook_answered (cfg : Settings) (env : Env) (hhttp : env.http = some 200) (db : Db)
    (n : Notice) (attempt : Nat) : (fireWebhook cfg env db n attempt).2 = none := by
  unfold fireWebhook
  split
  · rfl
  · split
    · rfl
    · simp [hhttp]

theorem firing_part (cfg : Settings) (sh : Shared) (n : Notice) (attempt : Nat)
    (rest : List RecoveredRow) :
    ∃ sh', Part cfg (sh, .firing n attempt rest) (sh', .reclaiming rest) := by
  let answer : Env := { http := some 200 }
  have hdone := fireWebhook_answered cfg answer rfl sh.db n attempt
  cases hf : fireWebhook cfg answer sh.db n attempt with
  | mk db next =>
    rw [hf] at hdone
    obtain rfl : next = none := hdone
    have hn : schedulerNext cfg answer sh (.firing n attempt rest) =
        some ({ sh with db := db }, .reclaiming rest, []) := by simp only [schedulerNext, hf]
    exact ⟨_, part_of_next rfl hn rfl⟩

theorem burying_part (cfg : Settings) (sh : Shared) (row : RecoveredRow)
    (rest : List RecoveredRow) :
    ∃ sh', Part cfg (sh, .burying row rest) (sh', .reclaiming rest) := by
  rcases deadLetterTxn_complete sh.db row.toLetterFields row.errorMessage row.attemptCount none with
    ⟨-, htxn⟩ | ⟨db, htxn⟩
  · have hn : schedulerNext cfg {} sh (.burying row rest) = some (sh, .reclaiming rest, []) := by
      simp only [schedulerNext, recoveryTxn, htxn]
    exact ⟨_, part_of_next rfl hn rfl⟩
  · let notice : Notice := ⟨row.id, row.callbackUrl, .deadLettered⟩
    have hn : schedulerNext cfg {} sh (.burying row rest) =
        some ({ sh with db := db }, .releasing notice rest,
          [.deadLettered none ((sh.db.row row.id).map Job.status) row.id]) := by
      simp only [schedulerNext, recoveryTxn, htxn, notice]
    have hrelease : ∀ sh, Part cfg (sh, .releasing notice rest)
        ({ sh with redis := sh.redis.deleteLock notice.jobId }, .firing notice 1 rest) :=
      fun sh => part_of_next rfl (show schedulerNext cfg {} sh _ = _ from rfl) rfl
    obtain ⟨sh', hfire⟩ := firing_part cfg _ notice 1 rest
    exact ⟨sh', ((part_of_next rfl hn rfl).trans (hrelease _)).trans hfire⟩

/-- **The loop over the recovered rows ends.** -/
theorem reclaiming_part (cfg : Settings) (sh : Shared) (rows : List RecoveredRow) :
    ∃ sh', Part cfg (sh, .reclaiming rows) (sh', .requeuing) := by
  induction rows generalizing sh with
  | nil => exact ⟨sh, part_of_next rfl (show schedulerNext cfg {} sh _ = _ from rfl) rfl⟩
  | cons row rest ih =>
    have hfirst : Part cfg (sh, .reclaiming (row :: rest))
        ({ sh with redis := sh.redis.deleteLock row.id },
          if atCap row then .burying row rest else .reclaiming rest) :=
      part_of_next rfl (show schedulerNext cfg {} sh _ = _ from rfl) (by split <;> rfl)
    by_cases hcap : atCap row = true
    · rw [if_pos hcap] at hfirst
      obtain ⟨sh₁, hbury⟩ := burying_part cfg _ row rest
      obtain ⟨sh', hrest⟩ := ih sh₁
      exact ⟨sh', (hfirst.trans hbury).trans hrest⟩
    · rw [if_neg hcap] at hfirst
      obtain ⟨sh', hrest⟩ := ih _
      exact ⟨sh', hfirst.trans hrest⟩

/-- A requeue with the answer `ids`, and the pipeline, with which the tick ends. -/
theorem requeue_part (sh : Shared) {ids : List JobId} (hids : requeues cfg sh.db ids = true) :
    ∃ x, Part cfg (sh, .requeuing) x ∧ Awaits cfg x
      ({ sh with redis := sh.redis.enqueue (sh.db.returning Job.queueRow ids) }, .promoting) := by
  let batch : Env := { batch := ids }
  have hn : schedulerNext cfg batch sh .requeuing =
      some (sh, if ids.isEmpty then .promoting
        else .enqueuing (sh.db.returning Job.queueRow ids) true, []) := by
    simp only [schedulerNext, batch, hids, if_true]
  cases ids with
  | nil => exact ⟨_, .refl, batch, [], rfl, hn⟩
  | cons id rest => exact ⟨_, part_of_next rfl hn rfl, {}, [], rfl, rfl⟩

/-! ### Ticks of one scheduler -/

variable {k : SchedulerId} {s t u : State} {a : Action}

/-- Only scheduler `k` runs, its calls succeed and nobody else locks a row; the
database clock does not go back. -/
def onlyScheduler (k : SchedulerId) (s : State) : Action → Bool
  | .scheduler j (.run env) => decide (j = k) && env.locked.isEmpty
  | .tick t _ => decide (s.db.now ≤ t)
  | _ => false

theorem onlyScheduler_cases (h : onlyScheduler k s a = true) :
    (∃ env, a = .scheduler k (.run env) ∧ env.locked = []) ∨
      ∃ x y, a = .tick x y ∧ s.db.now ≤ x := by
  cases a with
  | scheduler j c =>
    cases c with
    | run env =>
      simp only [onlyScheduler, Bool.and_eq_true, decide_eq_true_eq, List.isEmpty_iff] at h
      obtain ⟨rfl, hl⟩ := h
      exact Or.inl ⟨env, rfl, hl⟩
    | raise | crash => cases h
  | tick x y => exact Or.inr ⟨x, y, rfl, of_decide_eq_true h⟩
  | worker | createJob | retryJob | redisFault => cases h

/-- The end of a tick. -/
def tickEnds (t : State) : Action → List Unit
  | .scheduler k _ => if (t.schedulers k).isPromoting then [()] else []
  | _ => []

/-- The system, with the ends of ticks reported. -/
def ticking (cfg : Settings) : Lts.System State Action Unit :=
  (system cfg).observe (fun _ a t _ => tickEnds t a)

/-- Scheduler `k` takes `s` to `t` in `n` ticks. -/
def Ticks (cfg : Settings) (k : SchedulerId) (n : Nat) (s t : State) : Prop :=
  ∃ h, Lts.Path (ticking cfg) (onlyScheduler k) s h t ∧ h.length = n ∧ t.schedulers k = .promoting

/-- Scheduler `k` takes `s` to `t` within a tick. -/
def Within (cfg : Settings) (k : SchedulerId) (s t : State) : Prop :=
  Lts.Path (ticking cfg) (onlyScheduler k) s [] t

theorem Within.trans (h : Within cfg k s t) (h' : Within cfg k t u) : Within cfg k s u :=
  Lts.Path.trans h h'

theorem Within.ticks {n : Nat} (h : Within cfg k s t) (h' : Ticks cfg k n t u) :
    Ticks cfg k n s u := by
  obtain ⟨l, hp, hlen, hu⟩ := h'
  refine ⟨_, Lts.Path.trans h hp, ?_, hu⟩
  rwa [List.append_nil]

theorem path_of_next (hlocked : env.locked = [])
    (h : schedulerNext cfg env s.toShared (s.schedulers k) = some (sh', pc', es)) :
    ∃ t, t.toShared = sh' ∧ t.schedulers k = pc' ∧
      Lts.Path (ticking cfg) (onlyScheduler k) s (if pc'.isPromoting then [()] else []) t := by
  refine ⟨(s.setShared sh').setScheduler k pc', rfl, ?_, ?_⟩
  · rw [State.setScheduler_schedulers, Function.update_self]
  · refine Lts.Path.single (a := .scheduler k (.run env)) ?_ ?_
    · simp [onlyScheduler, hlocked]
    · have hpc : ((s.setShared sh').setScheduler k pc').schedulers k = pc' := by
        rw [State.setScheduler_schedulers, Function.update_self]
      refine Option.map_eq_some_iff.mpr ⟨((s.setShared sh').setScheduler k pc', es), ?_, ?_⟩
      · exact Option.map_eq_some_iff.mpr ⟨(sh', pc', es), h, rfl⟩
      · simp only [tickEnds, hpc]

theorem within_of_next (hlocked : env.locked = [])
    (h : schedulerNext cfg env s.toShared (s.schedulers k) = some (sh', pc', es))
    (hpc : pc'.isPromoting = false) :
    ∃ t, t.toShared = sh' ∧ t.schedulers k = pc' ∧ Within cfg k s t := by
  obtain ⟨t, hsh, ht, hp⟩ := path_of_next hlocked h
  rw [hpc] at hp
  exact ⟨t, hsh, ht, hp⟩

/-! ### There is always a tick -/

/-- **A part of a tick is a run within the tick.** -/
theorem within_of_part {x : Shared × SchedulerPc} (h : Part cfg (s.toShared, s.schedulers k) x) :
    ∃ t, t.toShared = x.1 ∧ t.schedulers k = x.2 ∧ Within cfg k s t := by
  induction h with
  | refl => exact ⟨s, rfl, rfl, .refl⟩
  | tail _ hlast ih =>
    obtain ⟨t, hsh, hpc, hw⟩ := ih
    obtain ⟨⟨env, es, hlocked, hn⟩, hin⟩ := hlast
    rw [← hsh, ← hpc] at hn
    obtain ⟨u, hsu, hu, hw'⟩ := within_of_next hlocked hn hin
    exact ⟨u, hsu, hu, hw.trans hw'⟩

theorem ticks_of_awaits (h : Awaits cfg (s.toShared, s.schedulers k) (sh', .promoting)) :
    ∃ t, t.toShared = sh' ∧ Ticks cfg k 1 s t := by
  obtain ⟨env, es, hlocked, hn⟩ := h
  obtain ⟨t, hsh, ht, hp⟩ := path_of_next hlocked hn
  exact ⟨t, hsh, _, hp, rfl, ht⟩

/-- The end of a tick, where the requeue has the answer `ids`. -/
theorem ticks_of_requeues {ids : List JobId} (hids : requeues cfg s.db ids = true)
    (hpc : s.schedulers k = .requeuing) : ∃ t, t.toShared = { s.toShared with
      redis := s.redis.enqueue (s.db.returning Job.queueRow ids) } ∧ Ticks cfg k 1 s t := by
  obtain ⟨⟨sh, pc⟩, hpart, hlast⟩ := requeue_part s.toShared hids
  rw [← hpc] at hpart
  obtain ⟨t, hsh, ht, hw⟩ := within_of_part hpart
  dsimp only at hsh ht
  rw [← hsh, ← ht] at hlast
  obtain ⟨u, hsu, hu⟩ := ticks_of_awaits hlast
  exact ⟨u, hsu, hw.ticks hu⟩

theorem reclaiming_ends (rows : List RecoveredRow) (hpc : s.schedulers k = .reclaiming rows) :
    ∃ t, Within cfg k s t ∧ t.schedulers k = .requeuing := by
  obtain ⟨sh', hpart⟩ := reclaiming_part cfg s.toShared rows
  rw [← hpc] at hpart
  obtain ⟨t, -, ht, hw⟩ := within_of_part hpart
  exact ⟨t, hw, ht⟩

theorem live_step (hok : onlyScheduler k s a = true) (hstep : step cfg s a = some (t, es))
    {r' : Job} (hr' : t.row J = some r') (hlive : r'.live = true) :
    ∃ r, s.row J = some r ∧ r.live = true := by
  obtain ⟨before, after, e, ls, hb, ha, -, -, hE⟩ := step_effect hstep J
  cases ha.symm.trans hr'
  rcases onlyScheduler_cases hok with ⟨env, rfl, -⟩ | ⟨x, y, rfl, -⟩
  · cases hE with
    | stay => exact ⟨r', hb, hlive⟩
    | promote _ _ hp => exact ⟨_, hb, by rw [Job.live_iff, hp]; decide⟩
    | reclaim _ _ hc => exact ⟨_, hb, by rw [Job.live_iff, hc]; decide⟩
    | bury => simp [Job.live, markDeadLettered] at hlive
  · cases hE with
    | stay => exact ⟨r', hb, hlive⟩

theorem fits_step (hok : onlyScheduler k s a = true) (hstep : step cfg s a = some (t, es))
    (hfits : s.db.Fits cfg) : t.db.Fits cfg := by
  have hle : t.db.liveCount ≤ s.db.liveCount :=
    Table.filter_length_le (fun J r' hr' hlive => live_step (J := J) hok hstep hr' hlive)
  unfold Db.Fits at hfits ⊢
  omega

theorem fits_path {h : List Unit} (hp : Lts.Path (ticking cfg) (onlyScheduler k) s h t)
    (hfits : s.db.Fits cfg) : t.db.Fits cfg := by
  refine hp.invariant (I := fun _ u => u.db.Fits cfg) hfits (fun _ _ _ _ _ _ hf hok hstep => ?_)
  obtain ⟨es, hs, -⟩ := Lts.step_of_observe hstep
  exact fits_step hok hs hf

/-- **There is a tick** where the limit lets every live row through. -/
theorem exists_tick (hpc : s.schedulers k = .promoting) (hfits : s.db.Fits cfg) :
    ∃ t, Ticks cfg k 1 s t := by
  have hpromote := promotion_part s.toShared (promotes_idsOf hfits)
  obtain ⟨env, rows, es, hlocked, hn⟩ := exists_recover cfg _
  obtain ⟨sh, hreclaim⟩ := reclaiming_part cfg _ rows
  have hpart := (hpromote.trans (part_of_next hlocked hn rfl)).trans hreclaim
  rw [← hpc] at hpart
  obtain ⟨t, -, ht, hw⟩ := within_of_part hpart
  obtain ⟨u, -, hu⟩ := ticks_of_requeues (requeues_idsOf (fits_path hw hfits)) ht
  exact ⟨u, hw.ticks hu⟩

theorem Ticks.trans {m n : Nat} (h : Ticks cfg k m s t) (h' : Ticks cfg k n t u) :
    Ticks cfg k (m + n) s u := by
  obtain ⟨l, hp, rfl, -⟩ := h
  obtain ⟨l', hp', rfl, hu⟩ := h'
  refine ⟨_, hp.trans hp', ?_, hu⟩
  rw [List.length_append, Nat.add_comm]

/-- **There are any number of ticks.** -/
theorem exists_ticks (hpc : s.schedulers k = .promoting) (hfits : s.db.Fits cfg) :
    ∀ n, ∃ t, Ticks cfg k n s t := by
  intro n
  induction n with
  | zero => exact ⟨s, [], .refl, rfl, hpc⟩
  | succ n ih =>
    obtain ⟨t, h, hp, hlen, ht⟩ := ih
    obtain ⟨u, hu⟩ := exists_tick ht (fits_path hp hfits)
    have hticks : Ticks cfg k n s t := ⟨h, hp, hlen, ht⟩
    exact ⟨u, hticks.trans hu⟩

end NotifyQueue
