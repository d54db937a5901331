import Mathlib.Tactic.NormNum
import NotifyQueue.Safety.QueueEntry

/-!
# Scores and due times

A call of `promote_due_jobs` or `requeue_stale_queued_jobs` reads the rows of its
batch, and writes their scores with what it has read.  In between the job may be
claimed, put off and promoted again by another scheduler; the last `ZADD` wins.

`scoreGuard` is the condition that a `ZADD` writes no outdated score over the
current one: a row of a queued job is current, or a promotion with the current one
is still to come.  `ScoreKept` is the invariant: the score is right, or such a
promotion is still to come.

A score is a double, and has room for 53 bits.  So it keeps the order of due times,
but two that are close may have one score (`close_of_score`), and then `ZPOPMIN`
goes by the ids.
-/

namespace NotifyQueue

open KeyedTable

/-- `J` is queued and in its queue, and nobody is about to add it again. -/
structure Settled (s : State) (J : JobId) (r : Job) : Prop where
  row : s.row J = some r
  queued : r.status = .queued
  member : J ∈ s.redis.queue r.priority
  idle : ∀ k, ∀ row ∈ (s.schedulers k).batch, row.id ≠ J

/-- `promote_due_jobs` is about to add `J` with the `send_at` of its row `r`. -/
def Refreshing (s : State) (J : JobId) (r : Job) (k : SchedulerId) : Prop :=
  ∃ row ∈ (s.schedulers k).promoted, row.id = J ∧ row.sendAt = r.sendAt

/-- The score of `J`, if it has one, is the one of its row `r`. -/
def Scored (s : State) (J : JobId) (r : Job) : Prop :=
  ∀ v, (s.redis.queue r.priority).score? J = some v → v = priorityScore r.priority r.sendAt

/-- What the step must not do: write what is outdated over the current score, or
fail to add a promoted job that has an entry from before. -/
def KeepsScores (s : State) : Action → Prop
  | .scheduler k (.run _) => ∀ row ∈ (s.schedulers k).batch, ∀ r, s.row row.id = some r →
      r.status = .queued → row.sendAt = r.sendAt ∨ ∃ l, l ≠ k ∧ Refreshing s row.id r l
  | .scheduler k (.raise _) => ∀ row ∈ (s.schedulers k).promoted, ∀ r, s.row row.id = some r →
      r.status = .queued → row.id ∉ s.redis.queue r.priority ∨
        ∃ l, l ≠ k ∧ Refreshing s row.id r l
  | _ => True

/-- No crash and no loss of Redis data. -/
def noCrash (_ : State) : Action → Bool
  | .worker _ .crash | .scheduler _ .crash | .redisFault _ _ _ => false
  | _ => true

open Classical in
/-- The condition under which scores follow the rows. -/
noncomputable def scoreGuard (s : State) (a : Action) : Bool :=
  noCrash s a && decide (KeepsScores s a)

variable {cfg : Settings} {s t : State} {a : Action} {es h : List Event} {J : JobId}
  {p : Priority}

theorem scoreGuard_iff : scoreGuard s a = true ↔ noCrash s a = true ∧ KeepsScores s a := by
  classical
  rw [scoreGuard, Bool.and_eq_true, decide_eq_true_eq]

/-! ### Doubles -/

theorem double_mono : Monotone double := Rounding.toBits_mono (by decide)

/-- **A score keeps the order of due times.** -/
theorem priorityScore_mono (p : Priority) {x y : Time} (h : x ≤ y) :
    priorityScore p x ≤ priorityScore p y := by
  have hpos : (0 : ℚ) ≤ second := by norm_num [second]
  have hdiv : (x : ℚ) / second ≤ y / second :=
    div_le_div_of_nonneg_right (Int.cast_le.mpr h) hpos
  exact double_mono (add_le_add_right (double_mono hdiv) _)

theorem abs_sub_double {x : ℚ} (hlo : -2 ^ 38 < x) (hhi : x < 2 ^ 38) :
    |x - double x| ≤ 1 / 2 ^ 16 := by
  have hx : |x| < 2 ^ (38 : ℤ) := abs_lt.mpr ⟨by exact_mod_cast hlo, by exact_mod_cast hhi⟩
  have h := Rounding.abs_sub_toBits_le (p := 53) hx
  norm_num at h ⊢
  exact h

theorem abs_exactScore_sub (p : Priority) {x : Time} (hmin : minDatetime ≤ x)
    (hmax : x ≤ maxDatetime) : |exactScore p x - priorityScore p x| ≤ 1 / 2 ^ 15 := by
  have hlo : (-62135596800 : ℚ) ≤ x / second := by
    rw [le_div_iff₀ (by norm_num [second])]
    exact_mod_cast hmin
  have hhi : (x : ℚ) / second ≤ 253402300800 := by
    rw [div_le_iff₀ (by norm_num [second])]
    exact_mod_cast hmax.trans (Int.sub_le_self _ zero_le_one)
  have hw : (0 : ℚ) ≤ priorityWeight p ∧ (priorityWeight p : ℚ) ≤ 20000000000 := by
    cases p <;> norm_num [priorityWeight]
  -- one rounding for the division, and one for the sum
  have hdiv : |(x : ℚ) / second - timestamp x| ≤ 1 / 2 ^ 16 :=
    abs_sub_double (by linarith) (by linarith)
  rw [abs_le] at hdiv
  have hsum : |priorityWeight p + timestamp x - priorityScore p x| ≤ 1 / 2 ^ 16 :=
    abs_sub_double (by linarith) (by linarith)
  rw [abs_le] at hsum
  rw [exactScore, abs_le]
  constructor <;> linarith

/-- Two of a priority with one score are due within 61 microseconds. -/
theorem close_of_score {x y : Time} (hx : minDatetime ≤ x ∧ x ≤ maxDatetime)
    (hy : minDatetime ≤ y ∧ y ≤ maxDatetime) (h : priorityScore p x = priorityScore p y) :
    x ≤ y + 61 := by
  obtain ⟨-, hle⟩ := abs_le.mp (abs_exactScore_sub p hx.1 hx.2)
  obtain ⟨hge, -⟩ := abs_le.mp (abs_exactScore_sub p hy.1 hy.2)
  have hpos : (0 : ℚ) < second := by norm_num [second]
  have hlt : (x : ℚ) / second < (y + 61 + 1 : Int) / second := by
    rw [exactScore] at hle hge
    rw [add_assoc, Int.cast_add, add_div,
      show ((61 + 1 : Int) : ℚ) / second = 62 / 1000000 by norm_num [second]]
    linarith
  exact Int.le_of_lt_add_one (Int.cast_lt.mp ((div_lt_div_iff_of_pos_right hpos).mp hlt))

/-- A microsecond more or less makes no difference at low priority in 2026. -/
example : priorityScore .low (1767225600 * second + 1) =
    priorityScore .low (1767225600 * second + 2) := by decide +kernel

/-! ### Scores over one `await` -/

/-- **What the pipeline writes**: the score of a row of the batch, or none. -/
theorem score?_enqueue {score : Scoring} {v : ℚ} (rows : List QueueRow) (rd : Redis)
    (hv : ((rd.enqueue rows score).queue p).score? J = some v) :
    (∃ row ∈ rows, row.id = J ∧ row.priority = p ∧ v = score p row.sendAt) ∨
      (∀ row ∈ rows, row.id = J → row.priority ≠ p) ∧ (rd.queue p).score? J = some v := by
  induction rows generalizing rd with
  | nil => exact Or.inr ⟨by simp, hv⟩
  | cons row rows ih =>
    rcases ih (rd.zadd row score) hv with ⟨row', hr, hrow⟩ | ⟨hno, hv⟩
    · exact Or.inl ⟨row', List.mem_cons_of_mem _ hr, hrow⟩
    · by_cases hp : row.priority = p
      · subst hp
        simp only [Redis.zadd, Function.update_self, SortedSet.score?_add] at hv
        rcases hv with ⟨rfl, rfl⟩ | ⟨hne, hv⟩
        · exact Or.inl ⟨row, List.mem_cons_self, rfl, rfl, rfl⟩
        · refine Or.inr ⟨fun row' hrow' hid => ?_, hv⟩
          rcases List.mem_cons.mp hrow' with rfl | hrow'
          · exact absurd hid.symm hne
          · exact hno row' hrow' hid
      · simp only [Redis.zadd, Function.update_of_ne (Ne.symm hp)] at hv
        refine Or.inr ⟨fun row' hrow' hid => ?_, hv⟩
        rcases List.mem_cons.mp hrow' with rfl | hrow'
        · exact hp
        · exact hno row' hrow' hid

theorem score?_zpopmin {rd rd' : Redis} {q : Priority} {id : JobId} {v : ℚ}
    (h : rd.zpopmin q = some (id, rd')) (hv : (rd'.queue p).score? J = some v) :
    (rd.queue p).score? J = some v := by
  obtain ⟨z, hz, rfl⟩ := Redis.zpopmin_eq_some.mp h
  by_cases hp : p = q
  · subst hp
    simp only [Function.update_self] at hv
    exact SortedSet.score?_popMin hz hv
  · simpa only [Function.update_of_ne hp] using hv

theorem workerNext_score {w : WorkerId} {env : Env} {sh sh' : Shared} {pc pc' : WorkerPc}
    {v : ℚ} (h : workerNext cfg w env sh pc = some (sh', pc', es))
    (hv : (sh'.redis.queue p).score? J = some v) : (sh.redis.queue p).score? J = some v := by
  cases worker_await h with
  | pop hz => exact score?_zpopmin hz hv
  | lock hl => rwa [Redis.setLock_frame hl] at hv
  | _ => exact hv

theorem schedulerNext_pipeline {env : Env} {sh sh' : Shared} {pc pc' : SchedulerPc}
    (h : schedulerNext cfg env sh pc = some (sh', pc', es)) :
    sh'.redis.queue = (sh.redis.enqueue pc.batch).queue := by
  cases scheduler_await h <;> rfl

/-! ### Batches -/

theorem schedulerNext_batch {env : Env} {sh sh' : Shared} {pc pc' : SchedulerPc} {row : QueueRow}
    (h : schedulerNext cfg env sh pc = some (sh', pc', es)) (hrow : row ∈ pc'.batch) :
    ∃ r, sh'.db.row row.id = some r ∧ r.queueRow = row := by
  have hread : ∀ {db : Db} {ids : List JobId}, row ∈ db.returning Job.queueRow ids →
      ∃ r, db.row row.id = some r ∧ r.queueRow = row := by
    intro db ids hm
    obtain ⟨id, -, r, hr, rfl⟩ := mem_returning.mp hm
    obtain rfl : r.id = id := Table.key_of_find? hr
    exact ⟨r, hr, rfl⟩
  cases scheduler_await h with
  | promote _ _ hpc | requeue _ hpc =>
    rcases hpc with ⟨-, rfl⟩ | rfl
    · cases hrow
    · exact hread hrow
  | _ => cases hrow

/-- **Where a row of a batch comes from**: it was there before, or it has just
been read. -/
theorem batch_step (hstep : step cfg s a = some (t, es)) {k : SchedulerId} {row : QueueRow}
    (hrow : row ∈ (t.schedulers k).batch) :
    row ∈ (s.schedulers k).batch ∨ ∃ r, t.row row.id = some r ∧ r.queueRow = row := by
  by_cases hk : ∃ env, a = .scheduler k (.run env)
  · obtain ⟨env, rfl⟩ := hk
    exact Or.inr (schedulerNext_batch (scheduler_run hstep) hrow)
  · rcases idle_scheduler hstep (fun env ha => hk ⟨env, ha⟩) with hpc | hpc | hpc <;>
      rw [hpc] at hrow
    · exact Or.inl hrow
    · cases hrow
    · cases hrow

/-- The rows of the batches have the priorities of their jobs. -/
def BatchesKnown (s : State) : Prop :=
  ∀ k, ∀ row ∈ (s.schedulers k).batch, ∃ r, s.row row.id = some r ∧ r.priority = row.priority

theorem batchesKnown_step (hstep : step cfg s a = some (t, es)) (hb : BatchesKnown s) :
    BatchesKnown t := by
  intro k row hrow
  rcases batch_step hstep hrow with hrow | ⟨r, hr, rfl⟩
  · obtain ⟨r, hr, hp⟩ := hb k row hrow
    obtain ⟨ls, hE, -⟩ := step_affects hstep row.id
    obtain ⟨r', hr', -, hp'⟩ := hE.fixed hr
    exact ⟨r', hr', hp'.trans hp⟩
  · exact ⟨r, hr, rfl⟩

theorem run_batchesKnown {ok : State → Action → Bool} (hr : Lts.Run (system cfg) ok h s) :
    BatchesKnown s := by
  refine hr.invariant (I := fun _ s => BatchesKnown s) (fun s hi k row hrow => ?_)
    (fun _ _ _ _ _ _ hb _ hstep => batchesKnown_step hstep hb)
  rw [hi.schedulers] at hrow
  cases hrow

/-! ### The invariant -/

/-- When `J` is queued its score is right, or is about to be set right. -/
def ScoreKept (s : State) (J : JobId) : Prop :=
  ∀ r, s.row J = some r → r.status = .queued → Scored s J r ∨ ∃ k, Refreshing s J r k

theorem refreshing_frame (hstep : step cfg s a = some (t, es)) {k : SchedulerId} {r : Job}
    (hk : ∀ c, a ≠ .scheduler k c) (hr : Refreshing s J r k) : Refreshing t J r k := by
  obtain ⟨row, hrow, hid, hat⟩ := hr
  exact ⟨row, by rwa [scheduler_frame hstep hk], hid, hat⟩

/-- A scheduler that runs its pipeline writes the current score, or somebody else
is about to. -/
theorem scored_of_pipeline (hb : BatchesKnown s) {k : SchedulerId} {env : Env}
    (hok : KeepsScores s (.scheduler k (.run env)))
    (hstep : step cfg s (.scheduler k (.run env)) = some (t, es)) {r : Job}
    (hr : s.row J = some r) (hq : r.status = .queued)
    (hi : Scored s J r ∨ ∃ k, Refreshing s J r k) : Scored t J r ∨ ∃ k, Refreshing t J r k := by
  by_cases hother : ∃ l, l ≠ k ∧ Refreshing s J r l
  · obtain ⟨l, hl, href⟩ := hother
    exact Or.inr ⟨l, refreshing_frame hstep (fun c hc => by cases hc; exact hl rfl) href⟩
  · refine Or.inl (fun v hv => ?_)
    have hqueue : t.redis.queue = (s.redis.enqueue (s.schedulers k).batch).queue := by
      cases scheduler_moves hstep with
      | run hn => exact schedulerNext_pipeline hn
    rw [hqueue] at hv
    rcases score?_enqueue _ _ hv with ⟨row, hrow, hid, -, rfl⟩ | ⟨hno, hv⟩
    · subst hid
      rcases hok row hrow r hr hq with hat | hl
      · rw [hat]
      · exact absurd hl hother
    · rcases hi with hs | ⟨l, href⟩
      · exact hs v hv
      · -- the batch with the current score is the one of the pipeline
        obtain rfl : l = k := by
          by_contra hne
          exact hother ⟨l, hne, href⟩
        obtain ⟨row, hrow, rfl, -⟩ := href
        have hrow := mem_batch_of_promoted hrow
        obtain ⟨r₀, hr₀, hp⟩ := hb l row hrow
        cases hr.symm.trans hr₀
        exact absurd hp.symm (hno row hrow rfl)

theorem scoreKept_stay (hb : BatchesKnown s) (hok : scoreGuard s a = true)
    (hstep : step cfg s a = some (t, es)) {r : Job} (hr : s.row J = some r)
    (hq : r.status = .queued) (hi : Scored s J r ∨ ∃ k, Refreshing s J r k) :
    Scored t J r ∨ ∃ k, Refreshing t J r k := by
  obtain ⟨hcalm, hkeep⟩ := scoreGuard_iff.mp hok
  cases redis_step hstep with
  | worker hn =>
    exact hi.imp (fun hs v hv => hs v (workerNext_score hn hv))
      (fun ⟨k, href⟩ => ⟨k, refreshing_frame hstep (by simp) href⟩)
  | scheduler hn => exact scored_of_pipeline hb hkeep hstep hr hq hi
  | idle _ hrun hqueue =>
    rcases hi with hs | ⟨l, href⟩
    · exact Or.inl (fun v hv => hs v (by rwa [hqueue] at hv))
    · by_cases hraise : ∃ cut, a = .scheduler l (.raise cut)
      · obtain ⟨cut, rfl⟩ := hraise
        obtain ⟨row, hrow, rfl, -⟩ := href
        rcases hkeep row hrow r hr hq with hno | ⟨m, hm, href⟩
        · refine Or.inl (fun v hv => absurd (SortedSet.mem_of_score? hv) ?_)
          rwa [hqueue]
        · exact Or.inr ⟨m, refreshing_frame hstep (fun c hc => by cases hc; exact hm rfl) href⟩
      · refine Or.inr ⟨l, refreshing_frame hstep (fun c hc => ?_) href⟩
        subst hc
        cases c with
        | run env => exact hrun l env rfl
        | raise cut => exact hraise ⟨cut, rfl⟩
        | crash => cases hcalm
  | fault => cases hcalm

theorem scoreKept_step (hb : BatchesKnown s) (hok : scoreGuard s a = true)
    (hstep : step cfg s a = some (t, es)) (hi : ScoreKept s J) : ScoreKept t J := by
  intro r' hr' hq'
  obtain ⟨before, after, e, ls, hbf, haf, -, -, hE⟩ := step_effect hstep J
  cases haf.symm.trans hr'
  cases hE with
  | stay | deliver => exact scoreKept_stay hb hok hstep hbf hq' (hi r' hbf hq')
  | @promote k env r hpc hJ =>
    have hn := scheduler_run hstep
    rw [hpc] at hn
    have hid : r.id = J := Table.key_of_find? hbf
    exact Or.inr ⟨k, _, promoting_promoted hn hJ haf, hid, rfl⟩
  | beat hc => cases hc.symm.trans hq'
  | create | claim | send | retry | defer | giveUp | bury | reclaim | replay => cases hq'

theorem run_scoreKept (hr : Lts.Run (system cfg) scoreGuard h s) (J : JobId) : ScoreKept s J :=
  run_rows (P := fun _ s r => r.status = .queued → Scored s J r ∨ ∃ k, Refreshing s J r k) hr
    (fun _ _ _ _ _ hr hk hok hstep => scoreKept_step (run_batchesKnown hr) hok hstep hk)

/-! ### Scores follow the rows -/

/-- In the runs whose steps meet `ok`, a settled job has the score of its row, and
of two settled jobs of a queue the one that is popped is due first, unless they have
one score. -/
def ScoresFollow (cfg : Settings) (ok : State → Action → Bool) : Prop :=
  ∀ h s, Lts.Run (system cfg) ok h s →
    (∀ J r, Settled s J r →
      (s.redis.queue r.priority).score? J = some (priorityScore r.priority r.sendAt)) ∧
    (∀ J r J' r' redis, Settled s J r → Settled s J' r' → r.priority = r'.priority →
      s.redis.zpopmin r.priority = some (J, redis) → r.sendAt ≤ r'.sendAt ∨
        priorityScore r.priority r.sendAt = priorityScore r.priority r'.sendAt)

theorem score?_of_settled (hr : Lts.Run (system cfg) scoreGuard h s) {r : Job}
    (hs : Settled s J r) :
    (s.redis.queue r.priority).score? J = some (priorityScore r.priority r.sendAt) := by
  obtain ⟨v, hv⟩ := SortedSet.score?_of_mem hs.member
  rcases run_scoreKept hr J r hs.row hs.queued with hscored | ⟨k, row, hrow, hid, -⟩
  · rw [hv, hscored v hv]
  · exact absurd hid (hs.idle k row (mem_batch_of_promoted hrow))

/-- `ZPOPMIN` goes by the due times as far as the scores tell them apart. -/
theorem order_of_settled (hr : Lts.Run (system cfg) scoreGuard h s) {J' : JobId} {r r' : Job}
    {redis : Redis} (hs : Settled s J r) (hs' : Settled s J' r') (hp : r.priority = r'.priority)
    (hpop : s.redis.zpopmin r.priority = some (J, redis)) : r.sendAt ≤ r'.sendAt ∨
      priorityScore r.priority r.sendAt = priorityScore r.priority r'.sendAt := by
  have hv := score?_of_settled hr hs
  have hv' := score?_of_settled hr hs'
  rw [← hp] at hv'
  obtain ⟨z, hz, -⟩ := Redis.zpopmin_eq_some.mp hpop
  have hle := SortedSet.le_of_popMin hz hv hv'
  rcases le_or_gt r.sendAt r'.sendAt with hat | hat
  · exact Or.inl hat
  · exact Or.inr (hle.antisymm (priorityScore_mono _ hat.le))

/-- So no settled job of its queue is due earlier by more than 61 microseconds than
the one that is popped. -/
theorem due_of_popped (hr : Lts.Run (system cfg) scoreGuard h s) {J' : JobId} {r r' : Job}
    {redis : Redis} (hs : Settled s J r) (hs' : Settled s J' r') (hp : r.priority = r'.priority)
    (hpop : s.redis.zpopmin r.priority = some (J, redis))
    (hat : minDatetime ≤ r.sendAt ∧ r.sendAt ≤ maxDatetime)
    (hat' : minDatetime ≤ r'.sendAt ∧ r'.sendAt ≤ maxDatetime) :
    r.sendAt ≤ r'.sendAt + 61 := by
  rcases order_of_settled hr hs hs' hp hpop with hle | heq
  · linarith
  · exact close_of_score hat hat' heq

/-- **Scores follow the rows** in every run without a crash and without a loss of
Redis data in which no outdated score is written over the current one. -/
theorem scores_follow (cfg : Settings) : ScoresFollow cfg scoreGuard := by
  intro h s hr
  exact ⟨fun J r hs => score?_of_settled hr hs,
    fun J r J' r' redis hs hs' hp hpop => order_of_settled hr hs hs' hp hpop⟩

/-- The requeue sweep of scheduler `1` reads job `7`, due at `0`, and stalls.
Worker `1` pops the job, fails, and puts it off to the second `61`; scheduler `2`
promotes it and adds it; then scheduler `1` adds it with what it has read. -/
def lateSweep : List Action :=
  .createJob 7 plainJob :: promotion 0 7 ++ [clock (31 * second), schedule 1, schedule 1,
    schedule 1, schedule 1 { batch := [7] }] ++ claim 1 ++
    [work 1, work 1, work 1, work 1 { clock := 31 * second }, clock (61 * second)] ++
    promotion 2 7 ++ [schedule 1]

/-- Job `7` is due at the second `61`, and has the score of the second `0`. -/
theorem not_scores_follow : ¬ ScoresFollow {} faultless := by
  intro hfollow
  have hrun : ((system {}).exec faultless State.empty lateSweep).map
      (fun p : State × List Event =>
        ((p.1.row 7).map (fun r => (r.status, r.priority, r.sendAt)),
          (p.1.redis.queue .medium).score? 7,
          (lateSweep.filterMap Action.scheduler?).all
            (fun k => (p.1.schedulers k).batch.isEmpty))) =
      some (some (.queued, .medium, 61 * second), some (priorityScore .medium 0), true) := by
    decide +kernel
  obtain ⟨⟨t, h⟩, he, hf⟩ := Option.map_eq_some_iff.mp hrun
  obtain ⟨hrow, hf⟩ := Prod.mk.inj hf
  obtain ⟨hscore, hbatch⟩ := Prod.mk.inj hf
  obtain ⟨r, hr7, hst⟩ := Option.map_eq_some_iff.mp hrow
  obtain ⟨hq, hst⟩ := Prod.mk.inj hst
  obtain ⟨hp, hat⟩ := Prod.mk.inj hst
  have hs : Settled t 7 r := by
    refine ⟨hr7, hq, ?_, fun k row hrow => ?_⟩
    · rw [hp]
      exact SortedSet.mem_of_score? hscore
    · rw [batch_of_exec he hbatch] at hrow
      cases hrow
  have hright := (hfollow h t (Lts.run_of_exec initial_empty he)).1 7 r hs
  rw [hp, hat] at hright
  exact absurd (hscore.symm.trans hright) (by decide +kernel)

/-- Every `ZADD` writes the current scores of the queued jobs of its batch. -/
def freshAdds (s : State) : Action → Bool
  | .scheduler k (.run _) => (s.schedulers k).batch.all (fun row => (s.row row.id).all (fun r =>
      decide (r.status ≠ .queued) || decide (row.sendAt = r.sendAt)))
  | .scheduler _ (.raise _) => false
  | a => noCrash s a

theorem scoreGuard_of_freshAdds (s : State) (a : Action) (h : freshAdds s a = true) :
    scoreGuard s a = true := by
  refine scoreGuard_iff.mpr ?_
  cases a with
  | scheduler k c =>
    cases c with
    | run env =>
      refine ⟨rfl, fun row hrow r hr hq => Or.inl ?_⟩
      have hall := List.all_eq_true.mp h row hrow
      simpa [hr, hq] using hall
    | raise cut => cases h
    | crash => cases h
  | worker w c => exact ⟨h, trivial⟩
  | createJob | retryJob | tick | redisFault => exact ⟨h, trivial⟩

/-- Job `7` is promoted, due at the second `3`, and added with that score. -/
theorem scores_follow_promotion : ∃ h s r, Lts.Run (system {}) scoreGuard h s ∧
    Settled s 7 r ∧ r.sendAt = 3 * second ∧
    (s.redis.queue r.priority).score? 7 = some (priorityScore r.priority r.sendAt) := by
  let run : List Action :=
    .createJob 7 { plainJob with sendAt := 3 * second } :: promotion 0 7
  have hrun : ((system {}).exec freshAdds State.empty run).map
      (fun p : State × List Event =>
        ((p.1.row 7).map (fun r => (r.status, r.sendAt, decide (7 ∈ p.1.redis.queue r.priority))),
          (run.filterMap Action.scheduler?).all (fun k => (p.1.schedulers k).batch.isEmpty))) =
      some (some (.queued, 3 * second, true), true) := by decide +kernel
  obtain ⟨⟨s, h⟩, he, hf⟩ := Option.map_eq_some_iff.mp hrun
  obtain ⟨hrow, hbatch⟩ := Prod.mk.inj hf
  obtain ⟨r, hr7, hst⟩ := Option.map_eq_some_iff.mp hrow
  obtain ⟨hq, hst⟩ := Prod.mk.inj hst
  obtain ⟨hat, hm⟩ := Prod.mk.inj hst
  have hs : Settled s 7 r := by
    refine ⟨hr7, hq, of_decide_eq_true hm, fun k row hrow => ?_⟩
    rw [batch_of_exec he hbatch] at hrow
    cases hrow
  have hr : Lts.Run (system {}) scoreGuard h s :=
    (Lts.run_of_exec initial_empty he).mono scoreGuard_of_freshAdds
  exact ⟨h, s, r, hr, hs, hat, (scores_follow {} h s hr).1 7 r hs⟩

end NotifyQueue
