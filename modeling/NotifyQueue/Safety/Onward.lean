import NotifyQueue.Lib.Descent
import NotifyQueue.Safety.Drain
import NotifyQueue.Safety.Locks
import NotifyQueue.Safety.RateLimit

/-!
# Onward

How far the rows are from their end, and what a scheduler by itself does to that
(`closer_of_scheduler`): a live row stays as it was or gets nearer to its end.  The parts
of a tick can be run whatever the limit of a batch (`exists_promotion`,
`exists_recovery`, `Ticked.to_requeuing`, `exists_requeue`).
-/

namespace NotifyQueue

open KeyedTable

/-- Nobody but worker `w` and scheduler `k` runs, both without exceptions, and time
passes.  The worker reads the clock of the database.  There is no bound on the clock: a
job may have to wait longer than `datetime` goes. -/
def orderly (w : WorkerId) (k : SchedulerId) (s : State) : Action → Bool
  | .worker v (.run env) => decide (v = w) && decide (env.clock = s.db.now) &&
    decide (0 ≤ env.random) && decide (env.random < 1)
  | .scheduler j (.run env) => decide (j = k) && env.locked.isEmpty
  | .tick t u => decide (s.db.now ≤ t) && decide (u - s.redis.now = t - s.db.now)
  | _ => false

/-- How far a job is from its end. -/
def JobStatus.distance : JobStatus → Nat
  | .sent | .deadLettered => 0
  | .queued | .failed => 1
  | .pending => 2
  | .claimed => 3

/-- How far all the jobs are from their end. -/
def Db.distance (db : Db) : Nat := db.jobs.weight (fun r : Job => r.status.distance)

variable {cfg : Settings} {w : WorkerId} {k : SchedulerId} {s t u : State} {a : Action}
  {es h : List Event} {J : JobId} {p : Priority}

/-! ### Distances -/

theorem Job.distance_eq_zero {r : Job} : r.status.distance = 0 ↔ r.live = false := by
  rw [← Bool.not_eq_true, Job.live_iff]
  cases r.status <;> decide

/-- How far one job is from its end. -/
def State.distanceAt (s : State) (J : JobId) : Nat :=
  s.db.jobs.weightAt (fun r : Job => r.status.distance) J

theorem distanceAt_of_row {r : Job} (hr : s.row J = some r) :
    s.distanceAt J = r.status.distance := by
  have hr : s.db.jobs.find? J = some r := hr
  rw [State.distanceAt, Table.weightAt, hr]
  rfl

/-- No job is further from its end in `t`, and a live one is nearer to it or as it was. -/
structure Closer (s t : State) : Prop where
  rows : ∀ J, (t.row J).isSome = (s.row J).isSome
  le : ∀ J, t.distanceAt J ≤ s.distanceAt J
  same : ∀ J r, s.row J = some r → r.live = true →
    t.row J = some r ∨ t.distanceAt J < s.distanceAt J

theorem distanceAt_congr (h : t.row J = s.row J) : t.distanceAt J = s.distanceAt J := by
  have h : t.db.jobs.find? J = s.db.jobs.find? J := h
  rw [State.distanceAt, State.distanceAt, Table.weightAt, Table.weightAt, h]

theorem Closer.of_rows (h : ∀ J, t.row J = s.row J) : Closer s t where
  rows J := by rw [h]
  le J := (distanceAt_congr (h J)).le
  same J r hr _ := Or.inl (by rw [h, hr])

theorem Closer.trans (h : Closer s t) (h' : Closer t u) : Closer s u where
  rows J := (h'.rows J).trans (h.rows J)
  le J := (h'.le J).trans (h.le J)
  same J r hr hlive := by
    rcases h.same J r hr hlive with ht | hlt
    · rcases h'.same J r ht hlive with hu | hlt
      · exact Or.inl hu
      · exact Or.inr (hlt.trans_le (h.le J))
    · exact Or.inr ((h'.le J).trans_lt hlt)

theorem Closer.distance_le (h : Closer s t) : t.db.distance ≤ s.db.distance :=
  Table.weight_le h.rows h.le

theorem Closer.distance_lt (h : Closer s t) (hlt : t.distanceAt J < s.distanceAt J) :
    t.db.distance < s.db.distance := Table.weight_lt h.rows h.le hlt

/-- **The live rows are as they were, or the distance is shorter.** -/
theorem Closer.row_of_not_lt (h : Closer s t) (hnot : ¬ t.db.distance < s.db.distance) {r : Job}
    (hr : s.row J = some r) (hlive : r.live = true) : t.row J = some r := by
  rcases h.same J r hr hlive with ht | hlt
  · exact ht
  · exact absurd (h.distance_lt hlt) hnot

theorem closer_of_scheduler {env : Env}
    (hstep : step cfg s (.scheduler k (.run env)) = some (t, es)) : Closer s t := by
  have hrow : ∀ J, t.row J = s.row J ∨ ∃ r r', s.row J = some r ∧ t.row J = some r' ∧
      (r'.status.distance < r.status.distance ∨ r'.live = false) := by
    intro J
    obtain ⟨before, after, e, ls, hb, ha, -, -, hE⟩ := step_effect hstep J
    rw [hb, ha]
    cases hE with
    | stay => exact Or.inl rfl
    | promote _ _ hp => exact Or.inr ⟨_, _, rfl, rfl, Or.inl (by
      rw [hp]
      exact (by decide : JobStatus.queued.distance < JobStatus.pending.distance))⟩
    | bury => exact Or.inr ⟨_, _, rfl, rfl, Or.inr rfl⟩
    | reclaim _ _ hc => exact Or.inr ⟨_, _, rfl, rfl, Or.inl (by
      rw [hc]
      exact (by decide : JobStatus.pending.distance < JobStatus.claimed.distance))⟩
  have hle : ∀ J r r', s.row J = some r → t.row J = some r' →
      r'.status.distance < r.status.distance ∨ r'.live = false →
      t.distanceAt J ≤ s.distanceAt J ∧ (r.live = true → t.distanceAt J < s.distanceAt J) := by
    intro J r r' hr hr' hd
    rw [distanceAt_of_row hr, distanceAt_of_row hr']
    rcases hd with hlt | hdead
    · exact ⟨hlt.le, fun _ => hlt⟩
    · rw [Job.distance_eq_zero.mpr hdead]
      refine ⟨Nat.zero_le _, fun hlive => Nat.pos_of_ne_zero (fun h0 => ?_)⟩
      rw [Job.distance_eq_zero.mp h0] at hlive
      cases hlive
  refine ⟨fun J => ?_, fun J => ?_, fun J r₀ hr₀ hlive => ?_⟩
  · rcases hrow J with heq | ⟨r, r', hr, hr', -⟩
    · rw [heq]
    · rw [hr, hr']
      rfl
  · rcases hrow J with heq | ⟨r, r', hr, hr', hd⟩
    · exact (distanceAt_congr heq).le
    · exact (hle J r r' hr hr' hd).1
  · rcases hrow J with heq | ⟨r, r', hr, hr', hd⟩
    · exact Or.inl (heq.trans hr₀)
    · obtain rfl : r = r₀ := Option.some.inj (hr.symm.trans hr₀)
      exact Or.inr ((hle J r r' hr hr' hd).2 hlive)

/-! ### Within a tick -/

/-- Scheduler `k` has come from `s` to `u` by itself, without waiting. -/
structure Ticked (cfg : Settings) (w : WorkerId) (k : SchedulerId) (s u : State) : Prop where
  path : ∃ h, Lts.Path (system cfg) (orderly w k) s h u
  closer : Closer s u
  worker : u.workers w = s.workers w
  clocks : u.clocks = s.clocks
  counter : u.redis.counter = s.redis.counter
  lock : ∀ J l, u.redis.lock J = some l → s.redis.lock J = some l

theorem Ticked.refl (cfg : Settings) (w : WorkerId) (k : SchedulerId) (s : State) :
    Ticked cfg w k s s :=
  ⟨⟨[], .refl⟩, .of_rows fun _ => rfl, rfl, rfl, rfl, fun _ _ h => h⟩

theorem Ticked.next {env : Env} {sh' : Shared} {pc' : SchedulerPc} (h : Ticked cfg w k s u)
    (hlocked : env.locked = [])
    (hn : schedulerNext cfg env u.toShared (u.schedulers k) = some (sh', pc', es)) :
    ∃ v, Ticked cfg w k s v ∧ v.toShared = sh' ∧ v.schedulers k = pc' := by
  let v := (u.setShared sh').setScheduler k pc'
  have hpc : v.schedulers k = pc' := by
    rw [State.setScheduler_schedulers, Function.update_self]
  have hstep : step cfg u (.scheduler k (.run env)) = some (v, es) :=
    Option.map_eq_some_iff.mpr ⟨(sh', pc', es), hn, rfl⟩
  have hok : orderly w k u (.scheduler k (.run env)) = true := by simp [orderly, hlocked]
  obtain ⟨l, hp⟩ := h.path
  refine ⟨v, ⟨⟨_, hp.snoc hok hstep⟩, h.closer.trans (closer_of_scheduler hstep), h.worker, ?_, ?_,
    fun J l hl => h.lock J l (schedulerNext_lock hn hl)⟩, rfl, hpc⟩
  · exact (schedulerNext_clocks hn).trans h.clocks
  · exact (schedulerNext_counter hn).trans h.counter

theorem Ticked.part {x : Shared × SchedulerPc} (h : Ticked cfg w k s u)
    (hpart : Part cfg (u.toShared, u.schedulers k) x) :
    ∃ v, Ticked cfg w k s v ∧ v.toShared = x.1 ∧ v.schedulers k = x.2 := by
  induction hpart with
  | refl => exact ⟨u, h, rfl, rfl⟩
  | tail _ hlast ih =>
    obtain ⟨v, hv, hsh, hpc⟩ := ih
    obtain ⟨⟨env, es, hlocked, hn⟩, -⟩ := hlast
    rw [← hsh, ← hpc] at hn
    exact hv.next hlocked hn

/-! ### The parts of a tick -/

theorem Ticked.trans (h : Ticked cfg w k s t) (h' : Ticked cfg w k t u) : Ticked cfg w k s u := by
  obtain ⟨l, hp⟩ := h.path
  obtain ⟨l', hq⟩ := h'.path
  exact ⟨⟨_, hp.trans hq⟩, h.closer.trans h'.closer, h'.worker.trans h.worker,
    h'.clocks.trans h.clocks, h'.counter.trans h.counter,
    fun J l hl => h.lock J l (h'.lock J l hl)⟩

theorem exists_promotion (hb : 0 ≤ cfg.schedulerBatchSize) (hpc : s.schedulers k = .promoting) :
    ∃ u ids, Ticked cfg w k s u ∧ u.schedulers k = .recovering ∧
      promotes cfg s.db [] ids = true ∧ u.db = s.db.update (promoteIds s.db.now ids) := by
  obtain ⟨ids, hids⟩ := exists_promotes hb s.db []
  have hpart := promotion_part s.toShared hids
  rw [← hpc] at hpart
  obtain ⟨u, hu, hsh, hupc⟩ := (Ticked.refl cfg w k s).part hpart
  exact ⟨u, ids, hu, hupc, hids, by rw [hsh]⟩

theorem exists_recovery (cfg : Settings) (hpc : s.schedulers k = .recovering) :
    ∃ u rows, Ticked cfg w k s u ∧ u.schedulers k = .reclaiming rows ∧
      u.db = s.db.update (recoverStaleClaimed s.db.now cfg.heartbeatTimeout) := by
  obtain ⟨env, rows, es, hlocked, hn⟩ := exists_recover cfg s.toShared
  rw [← hpc] at hn
  obtain ⟨u, hu, hsh, hupc⟩ := (Ticked.refl cfg w k s).next hlocked hn
  exact ⟨u, rows, hu, hupc, by rw [hsh]⟩

theorem Ticked.to_requeuing {rows : List RecoveredRow} (h : Ticked cfg w k s u)
    (hpc : u.schedulers k = .reclaiming rows) :
    ∃ v, Ticked cfg w k s v ∧ v.schedulers k = .requeuing := by
  obtain ⟨sh', hpart⟩ := reclaiming_part cfg u.toShared rows
  rw [← hpc] at hpart
  obtain ⟨v, hv, -, hvpc⟩ := h.part hpart
  exact ⟨v, hv, hvpc⟩

/-- `REQUEUE_STALE_QUEUED` may pick any row that it matches. -/
theorem exists_requeues (hb : 1 ≤ cfg.schedulerBatchSize) (db : Db) (J : JobId) :
    ∃ ids, requeues cfg db ids = true ∧
      ∀ r, db.row J = some r → staleQueued cfg db.now r = true → J ∈ ids := by
  let cands := db.jobs.rows.filter (staleQueued cfg db.now)
  have hnodup : (cands.map Keyed.key).Nodup := db.jobs.nodup.sublist (List.filter_sublist.map _)
  have hlimit : 1 ≤ cfg.schedulerBatchSize.toNat := by omega
  have hpick : ∀ r ∈ cands, ∃ ids, requeues cfg db ids = true ∧ r.id ∈ ids := by
    intro r hr
    obtain ⟨ids, hids, hmem⟩ := Table.exists_picks_mem hnodup hlimit hr
    refine ⟨ids, ?_, hmem⟩
    rw [requeues, hids, Bool.and_true, decide_eq_true_eq]
    omega
  by_cases hex : ∃ r ∈ cands, r.id = J
  · obtain ⟨r, hr, rfl⟩ := hex
    obtain ⟨ids, hids, hmem⟩ := hpick r hr
    exact ⟨ids, hids, fun _ _ _ => hmem⟩
  · have hnone : ∀ r, db.row J = some r → staleQueued cfg db.now r = true → False :=
      fun r hr hs => hex ⟨r, List.mem_filter.mpr ⟨Table.mem_of_find? hr, hs⟩, Table.key_of_find? hr⟩
    cases hc : cands with
    | nil =>
      refine ⟨[], ?_, fun r hr hs => (hnone r hr hs).elim⟩
      have hz : db.jobs.rows.filter (staleQueued cfg db.now) = [] := hc
      rw [requeues, hz]
      simp [Table.picks]
      omega
    | cons r rest =>
      obtain ⟨ids, hids, -⟩ := hpick r (hc ▸ List.mem_cons_self)
      exact ⟨ids, hids, fun r hr hs => (hnone r hr hs).elim⟩

theorem exists_requeue (hb : 1 ≤ cfg.schedulerBatchSize) (hpc : s.schedulers k = .requeuing)
    (J : JobId) : ∃ u, Ticked cfg w k s u ∧ u.schedulers k = .promoting ∧
      ∀ r, s.row J = some r → staleQueued cfg s.db.now r = true →
        J ∈ u.redis.queue r.priority := by
  obtain ⟨ids, hids, hmem⟩ := exists_requeues hb s.db J
  obtain ⟨x, hpart, env, es, hlocked, hn⟩ := requeue_part s.toShared hids
  rw [← hpc] at hpart
  obtain ⟨u, hu, hsh, hupc⟩ := (Ticked.refl cfg w k s).part hpart
  rw [← hsh, ← hupc] at hn
  obtain ⟨v, hv, hsv, hvpc⟩ := hu.next hlocked hn
  refine ⟨v, hv, hvpc, fun r hr hs => ?_⟩
  rw [hsv]
  exact mem_enqueue_returning.mpr (Or.inl ⟨hmem r hr hs, r, hr, rfl⟩)

end NotifyQueue
