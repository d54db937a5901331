import NotifyQueue.Job.Tick
import NotifyQueue.Safety.Letters
import NotifyQueue.Safety.QueueEntry
import NotifyQueue.Safety.Shape

/-!
# Two ticks after a crash

Whatever the processes were doing when they died and whatever is left in Redis,
one scheduler by itself brings every live job back in two ticks.  In the first
one the jobs left queued are added to their queues again and the claimed ones
are taken back or dead-lettered; in the second one what was taken back is
promoted.

`Tended` is the invariant, by how far the scheduler is (`progress`): from the
recovery of the first tick on no job is claimed, from its requeue on every
queued job has its entry, and from the promotion of the second tick on no job is
pending.
-/

namespace NotifyQueue

open KeyedTable

/-- Scheduler `k` is about to start a tick, the limit lets every live job
through, and the clock is past the due time of the live jobs, the heartbeat
timeout of the claimed ones and the requeue timeout of the queued ones. -/
structure Abandoned (cfg : Settings) (k : SchedulerId) (s : State) : Prop where
  ready : s.schedulers k = .promoting
  fits : s.db.Fits cfg
  due : ∀ r ∈ s.db.jobs.rows, r.live = true →
    r.sendAt ≤ s.db.now + cfg.schedulerLookaheadSeconds * second
  silent : ∀ r ∈ s.db.jobs.rows, r.status = .claimed → ∀ t ∈ r.heartbeatAt,
    t < s.db.now - cfg.heartbeatTimeout
  old : ∀ r ∈ s.db.jobs.rows, r.status = .queued →
    r.updatedAt < s.db.now - cfg.queuedRequeueSeconds * second

/-- No job of `s` is lost in `t`. -/
structure Recovered (s t : State) : Prop where
  /-- No row is deleted. -/
  kept : ∀ J r, s.row J = some r → ∃ r', t.row J = some r' ∧ r'.fixed = r.fixed
  /-- What is over is unchanged. -/
  ended : ∀ J r, s.row J = some r → r.live = false →
    t.row J = some r ∧ t.letters J = s.letters J
  /-- A live job is dead-lettered with its letter, or queued with its entry. -/
  live : ∀ J r, s.row J = some r → r.live = true → ∃ r', t.row J = some r' ∧
    (r'.status = .deadLettered ∧ (∃ d, (t.letters J).getLast? = some d ∧ d.Matches r') ∨
      r'.status = .queued ∧ J ∈ t.redis.queue r'.priority)

/-- How far scheduler `k` is, at four for each tick. -/
def progress (k : SchedulerId) (h : List Unit) (s : State) : Nat :=
  4 * h.length + (s.schedulers k).stage

/-- What scheduler `k` has done so far. -/
structure Tended (cfg : Settings) (k : SchedulerId) (h : List Unit) (s : State) : Prop where
  fits : s.db.Fits cfg
  due : ∀ J r, s.row J = some r → r.live = true →
    r.sendAt ≤ s.db.now + cfg.schedulerLookaheadSeconds * second
  silent : ∀ J r, s.row J = some r → r.status = .claimed →
    (recoverStaleClaimed s.db.now cfg.heartbeatTimeout).applies r = true
  covered : ∀ J r, s.row J = some r → r.status = .queued →
    progress k h s ≤ 2 ∧ staleQueued cfg s.db.now r = true ∨
    J ∈ s.redis.queue r.priority ∨
    ∃ row ∈ (s.schedulers k).batch, row.priority = r.priority ∧ row.id = J
  unclaimed : 2 ≤ progress k h s → ∀ J r, s.row J = some r → r.status ≠ .claimed
  promoted : 5 ≤ progress k h s → ∀ J r, s.row J = some r → r.status ≠ .pending

variable {cfg : Settings} {k : SchedulerId} {s t : State} {a : Action} {es : List Event}
  {h : List Unit} {J : JobId} {env : Env} {pc pc' : SchedulerPc}

/-! ### Where the bounds are crossed -/

/-- The stage a scheduler has moved to, counted on after the end of a tick. -/
def SchedulerPc.reached : SchedulerPc → Nat
  | .promoting => 4
  | pc => pc.stage

theorem SchedulerPc.reached_of_stage {n : Nat} (h : pc.stage = n + 1) : pc.reached = n + 1 := by
  cases pc with
  | promoting => cases h
  | _ => exact h

/-- Nothing between the start of the first tick and its recovery, and so on: the
bounds of `Tended` are crossed by the statement they are about. -/
theorem recovering_of_advance (ha : Advance pc pc') {n : Nat} (h : 4 * n + pc.stage < 2)
    (h' : 2 ≤ 4 * n + pc'.reached) : pc = .recovering := by
  cases ha with
  | recovered => rfl
  | promoted hs =>
    rw [SchedulerPc.reached_of_stage hs] at h'
    omega
  | settled hs => omega
  | enqueued | requeued | finished =>
    simp only [SchedulerPc.stage, SchedulerPc.reached] at h h'
    omega

theorem requeuing_of_advance (ha : Advance pc pc') {n : Nat} (h : 4 * n + pc.stage ≤ 2)
    (h' : 2 < 4 * n + pc'.reached) : pc = .requeuing := by
  cases ha with
  | requeued => rfl
  | promoted hs =>
    rw [SchedulerPc.reached_of_stage hs] at h'
    omega
  | settled _ _ hs =>
    rw [SchedulerPc.reached_of_stage hs] at h'
    omega
  | enqueued | recovered | finished =>
    simp only [SchedulerPc.stage, SchedulerPc.reached] at h h'
    omega

theorem promoting_of_advance (ha : Advance pc pc') {n : Nat} (h : 4 * n + pc.stage < 5)
    (h' : 5 ≤ 4 * n + pc'.reached) : pc = .promoting := by
  cases ha with
  | promoted => rfl
  | settled _ _ hs =>
    rw [SchedulerPc.reached_of_stage hs] at h'
    omega
  | requeued hs =>
    rcases hs with hs | rfl
    · rw [SchedulerPc.reached_of_stage hs] at h'
      simp only [SchedulerPc.stage] at h
      omega
    · simp only [SchedulerPc.stage, SchedulerPc.reached] at h h'
      omega
  | enqueued | recovered | finished =>
    simp only [SchedulerPc.stage, SchedulerPc.reached] at h h'
    omega

theorem SchedulerPc.reached_eq (pc : SchedulerPc) :
    pc.reached = 4 * (if pc.isPromoting then [()] else []).length + pc.stage := by
  cases pc with
  | promoting => rfl
  | _ => simp [reached, isPromoting]

theorem progress_next (h : List Unit) (t : State) (c : SchedulerChoice) :
    progress k (tickEnds t (.scheduler k c) ++ h) t = 4 * h.length + (t.schedulers k).reached := by
  rw [progress, SchedulerPc.reached_eq, List.length_append]
  show 4 * ((if (t.schedulers k).isPromoting then [()] else []).length + h.length) + _ = _
  omega

/-! ### Steps -/

theorem silent_later {now now' : Time} {r : Job} (hn : now ≤ now')
    (h : (recoverStaleClaimed now cfg.heartbeatTimeout).applies r = true) :
    (recoverStaleClaimed now' cfg.heartbeatTimeout).applies r = true := by
  obtain ⟨hc, t, ht, hlt⟩ := stale_iff.mp h
  exact stale_iff.mpr ⟨hc, t, ht, hlt.trans_le (Int.sub_le_sub_right hn _)⟩

theorem staleQueued_later {now now' : Time} {r : Job} (hn : now ≤ now')
    (h : staleQueued cfg now r = true) : staleQueued cfg now' r = true := by
  obtain ⟨hq, hlt⟩ := staleQueued_iff.mp h
  exact staleQueued_iff.mpr ⟨hq, hlt.trans_le (Int.sub_le_sub_right hn _)⟩

theorem tended_tick (hs : Tended cfg k h s) {x y : Time} (hn : s.db.now ≤ x)
    (hstep : step cfg s (.tick x y) = some (t, es)) : Tended cfg k h t := by
  cases hstep
  exact
    { fits := hs.fits
      due := fun J r hr hlive => (hs.due J r hr hlive).trans (Int.add_le_add_right hn _)
      silent := fun J r hr hc => silent_later hn (hs.silent J r hr hc)
      covered := fun J r hr hq => by
        rcases hs.covered J r hr hq with ⟨hp, hst⟩ | hcov
        · exact Or.inl ⟨hp, staleQueued_later hn hst⟩
        · exact Or.inr hcov
      unclaimed := hs.unclaimed
      promoted := hs.promoted }

/-- What a row comes from while only schedulers run. -/
inductive RowOrigin (s : State) (k : SchedulerId) (env : Env) (J : JobId) (r' : Job) : Prop
  | same : s.row J = some r' → RowOrigin s k env J r'
  | promoted {r : Job} : s.schedulers k = .promoting → J ∈ env.batch → s.row J = some r →
      r.status = .pending → r' = (promoteIds s.db.now env.batch).set r →
      RowOrigin s k env J r'
  | reclaimed {r : Job} {timeout : Time} : s.schedulers k = .recovering → s.row J = some r →
      r.status = .claimed → r' = (recoverStaleClaimed s.db.now timeout).set r →
      RowOrigin s k env J r'
  | buried : r'.status = .deadLettered → RowOrigin s k env J r'

theorem row_origin (hstep : step cfg s (.scheduler k (.run env)) = some (t, es)) {r' : Job}
    (hr' : t.row J = some r') : RowOrigin s k env J r' := by
  obtain ⟨before, after, e, ls, hb, ha, -, -, hE⟩ := step_effect hstep J
  cases ha.symm.trans hr'
  cases hE with
  | stay => exact .same hb
  | promote hpc hJ hp => exact .promoted hpc hJ hb hp rfl
  | reclaim hpc _ hc => exact .reclaimed hpc hb hc rfl
  | bury => exact .buried rfl

theorem now_of_run (hstep : step cfg s (.scheduler k (.run env)) = some (t, es)) :
    t.db.now = s.db.now :=
  congrArg Prod.fst (clocks_of_step hstep (fun x y hxy => by cases hxy))

theorem due_run (hs : Tended cfg k h s)
    (hstep : step cfg s (.scheduler k (.run env)) = some (t, es)) {r' : Job}
    (hr' : t.row J = some r') (hlive : r'.live = true) :
    r'.sendAt ≤ t.db.now + cfg.schedulerLookaheadSeconds * second := by
  rw [now_of_run hstep]
  cases row_origin hstep hr' with
  | same hr => exact hs.due J r' hr hlive
  | promoted _ _ hr hp he =>
    have hdue := hs.due J _ hr (by rw [Job.live_iff, hp]; decide)
    subst he
    exact hdue
  | reclaimed _ hr hc he =>
    have hdue := hs.due J _ hr (by rw [Job.live_iff, hc]; decide)
    subst he
    exact hdue
  | buried hd => exact absurd hd (Job.live_iff.mp hlive).2

theorem row_of_claimed_run (hstep : step cfg s (.scheduler k (.run env)) = some (t, es))
    {r' : Job} (hr' : t.row J = some r') (hc : r'.status = .claimed) : s.row J = some r' := by
  cases row_origin hstep hr' with
  | same hr => exact hr
  | promoted _ _ _ _ he | reclaimed _ _ _ he =>
    subst he
    cases hc
  | buried hd => cases hd.symm.trans hc

/-- A queued row was old and the requeue has not come yet, or has its entry, or
is in the batch: the one it was in, or the one this step has read. -/
theorem covered_run (hs : Tended cfg k h s)
    (hstep : step cfg s (.scheduler k (.run env)) = some (t, es)) {r' : Job}
    (hr' : t.row J = some r') (hq : r'.status = .queued) :
    progress k (tickEnds t (.scheduler k (.run env)) ++ h) t ≤ 2 ∧
      staleQueued cfg t.db.now r' = true ∨
    J ∈ t.redis.queue r'.priority ∨
    ∃ row ∈ (t.schedulers k).batch, row.priority = r'.priority ∧ row.id = J := by
  have hn := scheduler_run hstep
  cases row_origin hstep hr' with
  | same hr =>
    rcases hs.covered J r' hr hq with ⟨hp, hst⟩ | hcov
    · rw [progress_next, now_of_run hstep]
      by_cases hp' : 4 * h.length + (t.schedulers k).reached ≤ 2
      · exact Or.inl ⟨hp', hst⟩
      · have hpc := requeuing_of_advance (schedulerNext_advance hn) hp (Nat.lt_of_not_le hp')
        rw [hpc] at hn
        obtain ⟨hpc', hmem⟩ := requeue_all hn hs.fits hr hst
        refine Or.inr (Or.inr ⟨r'.queueRow, ?_, rfl, Table.key_of_find? hr⟩)
        rw [hpc']
        exact hmem
    · refine Or.inr (Or.inl (schedulerNext_queue hn ?_))
      rcases hcov with hm | ⟨row, hrow, hpr, hid⟩
      · exact Or.inl hm
      · exact Or.inr ⟨row, hrow, hpr, hid⟩
  | promoted hpc hJ =>
    rw [hpc] at hn
    exact Or.inr (Or.inr ⟨r'.queueRow, mem_batch_of_promoted (promoting_promoted hn hJ hr'), rfl,
      Table.key_of_find? hr'⟩)
  | reclaimed _ _ _ he =>
    subst he
    cases hq
  | buried hd => cases hd.symm.trans hq

theorem unclaimed_run (hs : Tended cfg k h s)
    (hstep : step cfg s (.scheduler k (.run env)) = some (t, es))
    (hp : 2 ≤ progress k (tickEnds t (.scheduler k (.run env)) ++ h) t) {r' : Job}
    (hr' : t.row J = some r') : r'.status ≠ .claimed := by
  intro hc
  by_cases hp' : 2 ≤ progress k h s
  · exact hs.unclaimed hp' J r' (row_of_claimed_run hstep hr' hc) hc
  · have hn := scheduler_run hstep
    rw [progress_next] at hp
    have hpc := recovering_of_advance (schedulerNext_advance hn) (Nat.lt_of_not_le hp') hp
    rw [hpc] at hn
    exact recover_all hn (fun r hr hc => hs.silent J r hr hc) hr' hc

theorem promoted_run (hs : Tended cfg k h s) (hlocked : env.locked = [])
    (hstep : step cfg s (.scheduler k (.run env)) = some (t, es))
    (hp : 5 ≤ progress k (tickEnds t (.scheduler k (.run env)) ++ h) t) {r' : Job}
    (hr' : t.row J = some r') : r'.status ≠ .pending := by
  intro hpend
  by_cases hp' : 5 ≤ progress k h s
  · cases row_origin hstep hr' with
    | same hr => exact hs.promoted hp' J r' hr hpend
    | promoted _ _ _ _ he =>
      subst he
      cases hpend
    | reclaimed _ hr hc => exact hs.unclaimed (by omega) J _ hr hc
    | buried hd => cases hd.symm.trans hpend
  · have hn := scheduler_run hstep
    rw [progress_next] at hp
    have hpc := promoting_of_advance (schedulerNext_advance hn) (Nat.lt_of_not_le hp') hp
    rw [hpc] at hn
    refine promote_all hn hlocked hs.fits (fun r hr hpend => ?_) hr' hpend
    exact hs.due J r hr (by rw [Job.live_iff, hpend]; decide)

/-- **The scheduler takes one step.** -/
theorem tended_run (hs : Tended cfg k h s) (hlocked : env.locked = [])
    (hstep : step cfg s (.scheduler k (.run env)) = some (t, es)) :
    Tended cfg k (tickEnds t (.scheduler k (.run env)) ++ h) t where
  fits := fits_step (k := k) (by simp [onlyScheduler, hlocked]) hstep hs.fits
  due _ _ hr' hlive := due_run hs hstep hr' hlive
  silent J r' hr' hc := by
    rw [now_of_run hstep]
    exact hs.silent J r' (row_of_claimed_run hstep hr' hc) hc
  covered _ _ hr' hq := covered_run hs hstep hr' hq
  unclaimed hp _ _ hr' := unclaimed_run hs hstep hp hr'
  promoted hp _ _ hr' := promoted_run hs hlocked hstep hp hr'

theorem tended_path (hs : Tended cfg k [] s)
    (hp : Lts.Path (ticking cfg) (onlyScheduler k) s h t) : Tended cfg k h t := by
  refine hp.invariant (I := Tended cfg k) hs (fun h s a t es _ ih hok hstep => ?_)
  obtain ⟨es', hs', rfl⟩ := Lts.step_of_observe hstep
  rcases onlyScheduler_cases hok with ⟨env, rfl, hl⟩ | ⟨x, y, rfl, hn⟩
  · exact tended_run ih hl hs'
  · exact tended_tick ih hn hs'

/-- Before its first tick the scheduler has nothing to answer for but the clock. -/
theorem tended_init (ha : Abandoned cfg k s) (hshape : ∀ J r, s.row J = some r → r.Shape) :
    Tended cfg k [] s where
  fits := ha.fits
  due J r hr := ha.due r (Table.mem_of_find? hr)
  silent J r hr hc := by
    obtain ⟨t, ht⟩ := Option.ne_none_iff_exists'.mp ((hshape J r hr).claimed hc).2.2
    have hlt := ha.silent r (Table.mem_of_find? hr) hc t ht
    simp [recoverStaleClaimed, hc, ht, hlt]
  covered J r hr hq := by
    have hlt := ha.old r (Table.mem_of_find? hr) hq
    refine Or.inl ⟨?_, by simp [staleQueued, hq, hlt]⟩
    rw [progress, ha.ready]
    exact Nat.zero_le _
  unclaimed hp := by
    rw [progress, ha.ready] at hp
    cases hp
  promoted hp := by
    rw [progress, ha.ready] at hp
    cases hp

/-! ### What is over, and what is not -/

/-- `J` is over, and scheduler `k` is not about to touch it. -/
structure Over (k : SchedulerId) (J : JobId) (r : Job) (ls : List DeadLetter) (s : State) :
    Prop where
  row : s.row J = some r
  letters : s.letters J = ls
  untouched : ∀ x ∈ s.recovered k, x.id ≠ J

theorem over_step {r : Job} {ls : List DeadLetter} (hr : r.live = false)
    (hok : onlyScheduler k s a = true) (hstep : step cfg s a = some (t, es))
    (ho : Over k J r ls s) : Over k J r ls t := by
  obtain ⟨before, after, e, new, hb, ha, he, hl, hE⟩ := step_effect hstep J
  cases hb.symm.trans ho.row
  have hstatus : ∀ status : JobStatus, status ≠ .sent → status ≠ .deadLettered →
      r.status ≠ status := by
    rintro status hs hd rfl
    rw [Job.live_iff.mpr ⟨hs, hd⟩] at hr
    cases hr
  have hkeep : e = [] → t.row J = some r → new = [] → Over k J r ls t := by
    intro hnil hrow hnew
    refine ⟨hrow, by rw [hl, hnew, List.append_nil, ho.letters], fun x hx hid => ?_⟩
    subst hid
    rcases recovered_step hstep hx with hx | ⟨_, -, -, hev⟩
    · exact ho.untouched x hx rfl
    · rw [he, hnil] at hev
      cases hev
  rcases onlyScheduler_cases hok with ⟨env, rfl, -⟩ | ⟨x, y, rfl, -⟩
  · cases hE with
    | stay => exact hkeep rfl ha rfl
    | promote _ _ hp => exact absurd hp (hstatus _ (by decide) (by decide))
    | reclaim _ _ hc => exact absurd hc (hstatus _ (by decide) (by decide))
    | bury hpc hid => exact absurd hid (ho.untouched _ (recovered_of_burying hpc))
  · cases hE with
    | stay => exact hkeep rfl ha rfl

theorem over_path {r : Job} (hrow : s.row J = some r) (hr : r.live = false)
    (hready : s.schedulers k = .promoting)
    (hp : Lts.Path (ticking cfg) (onlyScheduler k) s h t) : Over k J r (s.letters J) t := by
  refine hp.invariant (I := fun _ u => Over k J r (s.letters J) u) ⟨hrow, rfl, fun x hx => ?_⟩
    (fun _ _ _ _ _ _ ho hok hstep => ?_)
  · rw [State.recovered, hready] at hx
    cases hx
  · obtain ⟨es, hs, -⟩ := Lts.step_of_observe hstep
    exact over_step hr hok hs ho

theorem unsent_step (hok : onlyScheduler k s a = true) (hstep : step cfg s a = some (t, es))
    (hs : ∃ r, s.row J = some r ∧ r.status ≠ .sent) :
    ∃ r, t.row J = some r ∧ r.status ≠ .sent := by
  obtain ⟨r, hr, hne⟩ := hs
  rcases onlyScheduler_cases hok with ⟨env, rfl, -⟩ | ⟨x, y, rfl, -⟩
  · obtain ⟨r', hr', -⟩ := row_fixed hstep hr
    refine ⟨r', hr', ?_⟩
    cases row_origin hstep hr' with
    | same hr₀ =>
      cases hr.symm.trans hr₀
      exact hne
    | promoted _ _ _ _ he | reclaimed _ _ _ he =>
      subst he
      intro hs
      cases hs
    | buried hd =>
      rw [hd]
      decide
  · cases hstep
    exact ⟨r, hr, hne⟩

theorem unsent_path {r : Job} (hrow : s.row J = some r) (hne : r.status ≠ .sent)
    (hp : Lts.Path (ticking cfg) (onlyScheduler k) s h t) :
    ∃ r', t.row J = some r' ∧ r'.status ≠ .sent := by
  refine hp.invariant (I := fun _ u => ∃ r', u.row J = some r' ∧ r'.status ≠ .sent)
    ⟨r, hrow, hne⟩ (fun _ _ _ _ _ _ hs hok hstep => ?_)
  obtain ⟨es, hs', -⟩ := Lts.step_of_observe hstep
  exact unsent_step hok hs' hs

/-! ### The two ticks -/

theorem fixed_path {k : List Event} {ok : State → Action → Bool}
    (hp : Lts.Path (system cfg) ok s k t) {r : Job} (hr : s.row J = some r) :
    ∃ r', t.row J = some r' ∧ r'.fixed = r.fixed := by
  refine hp.invariant (I := fun _ u => ∃ r', u.row J = some r' ∧ r'.fixed = r.fixed)
    ⟨r, hr, rfl⟩ (fun _ _ _ _ _ _ ih _ hstep => ?_)
  obtain ⟨r', hr', hf⟩ := ih
  obtain ⟨r'', hr'', hf'⟩ := row_fixed hstep hr'
  exact ⟨r'', hr'', hf'.trans hf⟩

/-- After two ticks every job is where it belongs. -/
theorem recovered_of_ticks {l : List Event} (hr : Lts.Run (system cfg) always l s)
    (ha : Abandoned cfg k s) (ht : Ticks cfg k 2 s t) : Recovered s t := by
  obtain ⟨h, hp, hlen, hready⟩ := ht
  have htend := tended_path (tended_init ha (run_shape hr)) hp
  have hprog : progress k h t = 8 := by
    rw [progress, hlen, hready]
    rfl
  obtain ⟨l', hp'⟩ := hp.of_observe
  have hrun := hr.path (hp'.mono (fun _ _ _ => rfl))
  refine ⟨fun J r hrow => fixed_path hp' hrow, fun J r hrow hover => ?_,
    fun J r hrow hlive => ?_⟩
  · have ho := over_path hrow hover ha.ready hp
    exact ⟨ho.row, ho.letters⟩
  · obtain ⟨r', hr', hunsent⟩ := unsent_path hrow (Job.live_iff.mp hlive).1 hp
    refine ⟨r', hr', ?_⟩
    have hshape := run_shape hrun J r' hr'
    cases hst : r'.status with
    | pending => exact absurd hst (htend.promoted (by omega) J r' hr')
    | claimed => exact absurd hst (htend.unclaimed (by omega) J r' hr')
    | sent => exact absurd hst hunsent
    | failed => exact absurd hst hshape.notFailed
    | deadLettered => exact Or.inl ⟨rfl, run_letterAgrees hrun J r' hr' hst⟩
    | queued =>
      refine Or.inr ⟨rfl, ?_⟩
      rcases htend.covered J r' hr' hst with ⟨hle, -⟩ | hm | ⟨row, hrow', -⟩
      · omega
      · exact hm
      · rw [hready] at hrow'
        cases hrow'

/-- **Crash recovery loses no job**: from any state of the database and of Redis
that is left behind, scheduler `k` can complete two ticks, and whenever it has,
every job is where it belongs. -/
theorem crash_recovery {l : List Event} (hr : Lts.Run (system cfg) always l s)
    (ha : Abandoned cfg k s) :
    (∃ t, Ticks cfg k 2 s t) ∧ ∀ t, Ticks cfg k 2 s t → Recovered s t :=
  ⟨exists_ticks ha.ready ha.fits 2, fun _ => recovered_of_ticks hr ha⟩

/-- Scheduler `k` is about to start a tick, and the clock of the database is past the
`send_at` and both timeouts of every row. -/
structure LongGone (cfg : Settings) (k : SchedulerId) (s : State) : Prop where
  ready : s.schedulers k = .promoting
  fits : s.db.Fits cfg
  due : ∀ r ∈ s.db.jobs.rows, r.sendAt ≤ s.db.now
  silent : ∀ r ∈ s.db.jobs.rows, ∀ t ∈ r.heartbeatAt, t < s.db.now - cfg.heartbeatTimeout
  old : ∀ r ∈ s.db.jobs.rows, r.updatedAt < s.db.now - cfg.queuedRequeueSeconds * second

theorem LongGone.abandoned (hg : LongGone cfg k s) (hl : 0 ≤ cfg.schedulerLookaheadSeconds) :
    Abandoned cfg k s where
  ready := hg.ready
  fits := hg.fits
  due r hr _ := (hg.due r hr).trans (Int.le_add_of_nonneg_right (Int.mul_nonneg hl (by decide)))
  silent r hr _ := hg.silent r hr
  old r hr _ := hg.old r hr

/-- The same when everything is overdue, for every lookahead that is not negative. -/
theorem crash_recovery_overdue {l : List Event} (hr : Lts.Run (system cfg) always l s)
    (hl : 0 ≤ cfg.schedulerLookaheadSeconds) (hg : LongGone cfg k s) :
    (∃ t, Ticks cfg k 2 s t) ∧ ∀ t, Ticks cfg k 2 s t → Recovered s t :=
  ⟨exists_ticks hg.ready hg.fits 2, fun _ => recovered_of_ticks hr (hg.abandoned hl)⟩

/-- Worker `1` dies with job `7` claimed, scheduler `1` with job `8` promoted and
not enqueued, and Redis loses everything; job `9` is pending. -/
def afterCrash : List Action :=
  .createJob 7 plainJob :: promotion 0 7 ++ claim 1 ++ [.worker 1 .crash, .scheduler 0 .crash,
    .createJob 8 plainJob, schedule 1 { batch := [8] }, .scheduler 1 .crash, .createJob 9 plainJob,
    .redisFault (fun _ => SortedSet.empty) (fun _ => none) (fun _ => none), clock (1000 * second)]

/-- Scheduler `2` finds what is left. -/
theorem crash_recovery_lost : ∃ h s, Lts.Run (system {}) always h s ∧
    (s.db.jobs.rows.map Job.status = [.claimed, .queued, .pending]) ∧
    (∃ t, Ticks {} 2 2 s t) ∧ ∀ t, Ticks {} 2 2 s t → Recovered s t := by
  have hrun : ((system {}).exec always State.empty afterCrash).map
      (fun p : State × List Event => (p.1.db.jobs.rows.map Job.status,
        decide (p.1.db.liveCount ≤ 500),
        decide (∀ r ∈ p.1.db.jobs.rows, r.sendAt ≤ p.1.db.now + 5 * second),
        decide (∀ r ∈ p.1.db.jobs.rows, ∀ t ∈ r.heartbeatAt, t < p.1.db.now - 30 * second),
        decide (∀ r ∈ p.1.db.jobs.rows, r.updatedAt < p.1.db.now - 30 * second))) =
      some ([.claimed, .queued, .pending], true, true, true, true) := by decide +kernel
  obtain ⟨⟨s, h⟩, he, hf⟩ := Option.map_eq_some_iff.mp hrun
  simp only [Prod.mk.injEq, decide_eq_true_eq] at hf
  obtain ⟨hst, hfits, hdue, hsilent, hold⟩ := hf
  have hready : s.schedulers 2 = .promoting := by
    rw [scheduler_of_exec he (by decide)]
    rfl
  have hr := Lts.run_of_exec initial_empty he
  exact ⟨h, s, hr, hst, crash_recovery hr ⟨hready, Int.ofNat_le.mpr hfits, fun r hr _ => hdue r hr,
    fun r hr _ => hsilent r hr, fun r hr _ => hold r hr⟩⟩

end NotifyQueue
