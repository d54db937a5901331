import NotifyQueue.Job.Clocks
import NotifyQueue.Safety.Outcomes
import NotifyQueue.Safety.QueueEntry

/-!
# A deferred job and the window that rejected it

`check_rate_limit` reads the clock and rejects, `defer_job` reads the clock
again and adds the seconds to the next window, and a promotion takes the job up
to the lookahead before its `send_at`.  The job stays out of the window that
rejected it when what the two readings and the rounding leave over after the
opening is at least the lookahead, or the second reading is after the opening
(`Deferrable.opens`), and no worker that has lost its claim of the job is still
about to check it (`Deferrable.alone`).

After such a deferral the job is `Waiting` until it is promoted, and everything
read of its row from then on is from after the opening (`Opened`).
-/

namespace NotifyQueue

open KeyedTable

/-- Worker and database clocks agree: the database clock does not go back, and
what a worker reads is between what it has read before and the database clock. -/
def clocksAgree (s : State) : Action → Bool
  | .worker w (.run env) =>
    match (s.workers w).pc with
    | .limiting job => decide (job.updatedAt ≤ env.clock) && decide (env.clock ≤ s.db.now)
    | .deferring _ checkedAt => decide (checkedAt ≤ env.clock) && decide (env.clock ≤ s.db.now)
    | _ => true
  | .tick t _ => decide (s.db.now ≤ t)
  | _ => true

def Action.replays (J : JobId) : Action → Bool
  | .retryJob id => decide (id = J)
  | _ => false

/-- The same, without replays of `J`. -/
def untilReplay (J : JobId) (s : State) (a : Action) : Bool := clocksAgree s a && !a.replays J

/-- The job a worker has claimed and is to check against the rate limit, with
the row if it has read it. -/
def WorkerPc.unchecked : WorkerPc → Option Stake
  | .fetching id => some ⟨id, none⟩
  | .limiting job => some ⟨job.id, some job⟩
  | _ => none

/-- When the window after the one of `t` opens. -/
def nextOpening (t : Time) : Time := (t / hour + 1) * hour

/-- The state, the two clock readings and the lookahead keep a deferral of `job`
by `w` out of the window of `checkedAt`. -/
structure Deferrable (cfg : Settings) (s : State) (w : WorkerId) (env : Env) (job : Job)
    (checkedAt : Time) : Prop where
  opens : nextOpening checkedAt ≤ env.clock ∨ cfg.schedulerLookaheadSeconds * second ≤
    env.clock - checkedAt + (second - (nextOpening checkedAt - checkedAt) % second)
  alone : ∀ v, v ≠ w → ∀ x, (s.workers v).pc.unchecked = some x → x.job ≠ job.id

/-- In some run a job rejected at `checkedAt` is deferred, with `cond` of the
state and of the deferral, and checked again at `clock` without a replay. -/
inductive Rechecked (cfg : Settings) (cond : State → WorkerId → Env → Job → Time → Prop)
    (checkedAt clock : Time) : Prop
  | intro {h es k : List Event} {s t u : State} {w v : WorkerId} {env env' : Env}
      {job job' : Job} :
      Lts.Run (system cfg) clocksAgree h s →
      (s.workers w).pc = .deferring job checkedAt → cond s w env job checkedAt →
      clocksAgree s (work w env) = true → step cfg s (work w env) = some (t, es) →
      .deferred w job.id ∈ es → Lts.Path (system cfg) (untilReplay job.id) t k u →
      (u.workers v).pc = .limiting job' → job'.id = job.id →
      clocksAgree u (work v env') = true → env'.clock = clock →
      Rechecked cfg cond checkedAt clock

/-- A job deferred under the condition `cond` is next checked in a later hour
than the one in which it was rejected. -/
def NotLookedAtAgain (cfg : Settings)
    (cond : State → WorkerId → Env → Job → Time → Prop) : Prop :=
  ∀ checkedAt clock, Rechecked cfg cond checkedAt clock → checkedAt / hour < clock / hour

variable {cfg : Settings} {s t u : State} {a : Action} {es h : List Event} {J : JobId}
  {opening : Time}

/-! ### Jobs about to be checked -/

theorem workerNext_unchecked {w : WorkerId} {env : Env} {sh sh' : Shared} {pc pc' : WorkerPc}
    {x : Stake} (h : workerNext cfg w env sh pc = some (sh', pc', es))
    (hx : pc'.unchecked = some x) :
    (x.snapshot = none ∧ es = [.claimed w x.job]) ∨
    (∃ job, pc.unchecked = some ⟨x.job, none⟩ ∧ x.snapshot = some job ∧
      sh.db.row x.job = some job) := by
  cases worker_await h with
  | claim =>
    cases hx
    exact Or.inl ⟨rfl, rfl⟩
  | fetch hj hid =>
    subst hid
    cases hx
    exact Or.inr ⟨_, rfl, rfl, hj⟩
  | _ => cases hx

/-- **Who is about to check a job**: it was before, or it claims the job in this
step, or it reads the row in this step. -/
theorem unchecked_step (h : step cfg s a = some (t, es)) {v : WorkerId} {x : Stake}
    (hx : (t.workers v).pc.unchecked = some x) :
    (s.workers v).pc.unchecked = some x ∨
    (x.snapshot = none ∧ jobEvents x.job es = [.claimed v x.job]) ∨
    (∃ job, (s.workers v).pc.unchecked = some ⟨x.job, none⟩ ∧ x.snapshot = some job ∧
      s.row x.job = some job) := by
  by_cases hv : ∃ env, a = .worker v (.run env)
  · obtain ⟨env, rfl⟩ := hv
    rcases workerNext_unchecked (worker_run h) hx with ⟨hsnap, rfl⟩ | hf
    · exact Or.inr (Or.inl ⟨hsnap, jobEvents_self rfl⟩)
    · exact Or.inr (Or.inr hf)
  · exact Or.inl (held_of_idle (f := WorkerPc.unchecked) ⟨rfl, rfl, rfl⟩ h
      (fun env ha => hv ⟨env, ha⟩) hx)

/-! ### The deferral -/

/-- **What a deferral writes**: the second reading of the clock and the whole
seconds, rounded up, that the first one was away from the opening. -/
theorem defer_due {w : WorkerId} {env : Env} {job : Job} {checkedAt : Time}
    (h : step cfg s (work w env) = some (t, es))
    (hpc : (s.workers w).pc = .deferring job checkedAt) (he : .deferred w job.id ∈ es) :
    (t.workers w).pc.unchecked = none ∧ ∃ r, t.row job.id = some r ∧ r.status = .pending ∧
      r.sendAt = env.clock + ((nextOpening checkedAt - checkedAt) / second + 1) * second ∧
      r.updatedAt = s.db.now := by
  have ha := worker_await (worker_run h)
  rw [hpc] at ha
  generalize hsh : t.toShared = sh at ha
  generalize (t.workers w).pc = pc' at ha ⊢
  cases ha with
  | lose => cases List.mem_singleton.mp he
  | @settle _ _ _ _ _ db hu hf =>
    cases hu with
    | deferral hafter hnext =>
      obtain ⟨opening, hopen, rfl⟩ := Option.map_eq_some_iff.mp hafter
      obtain ⟨rfl, -⟩ := datetime?_eq_some.mp hopen
      obtain ⟨r, -, -, hr, -⟩ := row_of_fetchrow (fun r hr => (fenced_iff.mp hr).1) hf
      have hdb : t.row job.id = db.row job.id :=
        congrArg (fun sh : Shared => sh.db.row job.id) hsh
      exact ⟨rfl, _, hdb.trans hr, rfl, (datetime?_eq_some.mp hnext).1.symm, rfl⟩

theorem lookahead_le_due {clock checkedAt opening lookahead unit : Int}
    (h : lookahead ≤ clock - checkedAt + (unit - (opening - checkedAt) % unit)) :
    opening + lookahead ≤ clock + ((opening - checkedAt) / unit + 1) * unit := by
  have hdiv := Int.mul_ediv_add_emod (opening - checkedAt) unit
  rw [Int.add_mul, Int.one_mul, Int.mul_comm]
  omega

theorem hour_lt_of_nextOpening {t t' : Time} (h : nextOpening t ≤ t') : t / hour < t' / hour :=
  Int.lt_of_add_one_le ((Int.le_ediv_iff_mul_le (by decide)).mpr h)

/-! ### Until the window opens, and after -/

/-- The job cannot be promoted before the opening, and nobody is about to check it. -/
structure Waiting (cfg : Settings) (J : JobId) (opening : Time) (s : State) : Prop where
  unseen : ∀ v x, (s.workers v).pc.unchecked = some x → x.job ≠ J
  row : ∃ r, s.row J = some r ∧ (r.status = .deadLettered ∨ r.status = .pending ∧
    opening + cfg.schedulerLookaheadSeconds * second ≤ r.sendAt)

/-- The window is open, and everything read of the job is from after the opening. -/
structure Opened (J : JobId) (opening : Time) (s : State) : Prop where
  now : opening ≤ s.db.now
  row : ∀ r, s.row J = some r → opening ≤ r.updatedAt
  read : ∀ v x job, (s.workers v).pc.unchecked = some x → x.job = J → x.snapshot = some job →
    opening ≤ job.updatedAt

theorem forward_of_clocksAgree (h : clocksAgree s a = true) : forward s a = true := by
  cases a with
  | tick => exact h
  | _ => rfl

theorem Effect.updatedAt {before after : Option Job} {e : List Event} {ls : List DeadLetter}
    (hE : Effect cfg s J a before after e ls) {r' : Job} (hr' : after = some r') :
    before = some r' ∨ r'.updatedAt = s.db.now := by
  cases hE with
  | stay | deliver => exact Or.inl hr'
  | _ =>
    cases hr'
    exact Or.inr rfl

theorem opened_step (hok : clocksAgree s a = true) (hstep : step cfg s a = some (t, es))
    (ho : Opened J opening s) : Opened J opening t where
  now := ho.now.trans (now_le hstep (forward_of_clocksAgree hok))
  row r' hr' := by
    obtain ⟨ls, hE, -⟩ := step_affects hstep J
    rcases hE.updatedAt hr' with hr | hu
    · exact ho.row r' hr
    · rw [hu]
      exact ho.now
  read v x job hx hJ hsnap := by
    rcases unchecked_step hstep hx with hx | ⟨hnone, -⟩ | ⟨job', -, hsnap', hrow⟩
    · exact ho.read v x job hx hJ hsnap
    · cases hsnap.symm.trans hnone
    · cases hsnap.symm.trans hsnap'
      exact ho.row job (hJ ▸ hrow)

/-- **A step of a job that waits**: it goes on waiting, or it is promoted after
the opening. -/
theorem waiting_step (hok : untilReplay J s a = true) (hstep : step cfg s a = some (t, es))
    (hw : Waiting cfg J opening s) : Waiting cfg J opening t ∨ Opened J opening t := by
  rw [untilReplay, Bool.and_eq_true] at hok
  obtain ⟨hagree, hreplay⟩ := hok
  obtain ⟨r, hr, hwait⟩ := hw.row
  obtain ⟨before, after, e, ls, hb, ha, he, -, hE⟩ := step_effect hstep J
  cases hb.symm.trans hr
  -- nobody is about to check the job afterwards, unless it is claimed
  have hunseen : (∀ v, e ≠ [.claimed v J]) →
      ∀ v x, (t.workers v).pc.unchecked = some x → x.job ≠ J := by
    rintro hne v x hx rfl
    rcases unchecked_step hstep hx with hx | ⟨-, hcl⟩ | ⟨job, hx, -⟩
    · exact hw.unseen v x hx rfl
    · exact hne v (he.symm.trans hcl)
    · exact hw.unseen v _ hx rfl
  have hstatus : r.status = .deadLettered ∨ r.status = .pending := hwait.imp_right And.left
  cases hE with
  | stay | deliver => exact Or.inl ⟨hunseen (by simp), r, ha, hwait⟩
  | giveUp | bury => exact Or.inl ⟨hunseen (by simp), _, ha, Or.inl rfl⟩
  | @promote k env _ hpc hJ hp =>
    obtain ⟨-, hdue⟩ := due_of_promoting hstep hpc hJ hb
    have hopen : opening ≤ s.db.now := by
      rcases hwait with hd | ⟨-, hsend⟩
      · cases hd.symm.trans hp
      · exact Int.le_of_add_le_add_right (hsend.trans hdue)
    refine Or.inr ⟨hopen.trans (now_le hstep (forward_of_clocksAgree hagree)), ?_, ?_⟩
    · intro r' hr'
      cases ha.symm.trans hr'
      exact hopen
    · intro v x job hx hJ
      exact absurd hJ (hunseen (by simp) v x hx)
  | claim _ hc | beat hc | send _ _ hc | retry _ _ _ hc | defer _ _ hc | reclaim _ _ hc =>
    rcases hstatus with hs | hs <;> cases hs.symm.trans hc
  | replay => simp [Action.replays] at hreplay

theorem waiting_or_opened {k : List Event}
    (hp : Lts.Path (system cfg) (untilReplay J) t k u)
    (hw : Waiting cfg J opening t ∨ Opened J opening t) :
    Waiting cfg J opening u ∨ Opened J opening u := by
  refine hp.invariant (I := fun _ u => Waiting cfg J opening u ∨ Opened J opening u) hw
    (fun _ s a t es _ hi hok hstep => ?_)
  rcases hi with hw | ho
  · exact waiting_step hok hstep hw
  · rw [untilReplay, Bool.and_eq_true] at hok
    exact Or.inr (opened_step hok.1 hstep ho)

/-- A deferral under the condition leaves the job waiting, unless the window has
opened by then. -/
theorem waiting_of_deferral {w : WorkerId} {env : Env} {job : Job} {checkedAt : Time}
    (hd : Deferrable cfg s w env job checkedAt) (h : step cfg s (work w env) = some (t, es))
    (hpc : (s.workers w).pc = .deferring job checkedAt) (hclock : env.clock ≤ s.db.now)
    (he : .deferred w job.id ∈ es) : Waiting cfg job.id (nextOpening checkedAt) t ∨
      Opened job.id (nextOpening checkedAt) t := by
  obtain ⟨hnone, r, hr, hp, hdue, hupdated⟩ := defer_due h hpc he
  have hunseen : ∀ v x, (t.workers v).pc.unchecked = some x → x.job ≠ job.id := by
    intro v x hx
    have hv : v ≠ w := by
      rintro rfl
      cases hnone.symm.trans hx
    rw [worker_frame h (fun c hc => by cases hc; exact hv rfl)] at hx
    exact hd.alone v hv x hx
  rcases hd.opens with hopen | hlook
  · have hnow := hopen.trans hclock
    refine Or.inr ⟨hnow.trans (now_le h rfl), fun r' hr' => ?_, fun v x _ hx hJ => ?_⟩
    · cases hr.symm.trans hr'
      rw [hupdated]
      exact hnow
    · exact absurd hJ (hunseen v x hx)
  · refine Or.inl ⟨hunseen, r, hr, Or.inr ⟨hp, ?_⟩⟩
    rw [hdue]
    exact lookahead_le_due hlook

/-- **A deferred job is not looked at again in the window that rejected it**, if
the deferral comes after the opening or leaves the lookahead after it, and no worker
without a claim is still to check the job. -/
theorem deferral_leaves_window (cfg : Settings) : NotLookedAtAgain cfg (Deferrable cfg) := by
  rintro checkedAt _ @⟨h, es, k, s, t, u, w, v, env, env', job, job', -, hpc, hd, hagree, hstep,
    he, hpath, hpc', hid, hok, rfl⟩
  have hclock : env.clock ≤ s.db.now := by
    simp only [work, clocksAgree, hpc, Bool.and_eq_true, decide_eq_true_eq] at hagree
    exact hagree.2
  have hw := waiting_of_deferral hd hstep hpc hclock he
  have hun : (u.workers v).pc.unchecked = some ⟨job'.id, some job'⟩ := by rw [hpc']; rfl
  rcases waiting_or_opened hpath hw with hw | ho
  · exact absurd hid (hw.unseen v _ hun)
  · have hread : job'.updatedAt ≤ env'.clock := by
      simp only [work, clocksAgree, hpc', Bool.and_eq_true, decide_eq_true_eq] at hok
      exact hok.1
    exact hour_lt_of_nextOpening ((ho.read v _ job' hun hid rfl).trans hread)

/-! ### Runs with a deferral -/

/-- The job and the time in a worker's place in `defer_job`. -/
def WorkerPc.deferring? : WorkerPc → Option (JobId × Time)
  | .deferring job checkedAt => some (job.id, checkedAt)
  | _ => none

/-- The job a worker is about to check. -/
def WorkerPc.limiting? : WorkerPc → Option JobId
  | .limiting job => some job.id
  | _ => none

theorem deferring_of_deferring? {pc : WorkerPc} {id : JobId} {checkedAt : Time}
    (h : pc.deferring? = some (id, checkedAt)) :
    ∃ job, pc = .deferring job checkedAt ∧ job.id = id := by
  cases pc with
  | deferring job c =>
    cases h
    exact ⟨job, rfl, rfl⟩
  | _ => cases h

theorem limiting_of_limiting? {pc : WorkerPc} {id : JobId} (h : pc.limiting? = some id) :
    ∃ job, pc = .limiting job ∧ job.id = id := by
  cases pc with
  | limiting job =>
    cases h
    exact ⟨job, rfl, rfl⟩
  | _ => cases h

/-- A replay up to a deferral of `J` by `w` and another from there to a check by
`v` at `clock`, with all that makes them one of `Rechecked`. -/
def deferralRun (cfg : Settings) (J : JobId) (pre post : List Action) (w v : WorkerId)
    (clock : Time) : Option (Option (JobId × Time) × Bool × Bool × Option JobId × Bool) :=
  ((system cfg).exec clocksAgree State.empty pre).bind (fun p =>
    (step cfg p.1 (work w)).bind (fun q =>
      ((system cfg).exec (untilReplay J) q.1 post).map (fun r =>
        ((p.1.workers w).pc.deferring?, clocksAgree p.1 (work w), decide (.deferred w J ∈ q.2),
          (r.1.workers v).pc.limiting?, clocksAgree r.1 (work v { clock := clock })))))

theorem rechecked_of_replay {cond : State → WorkerId → Env → Job → Time → Prop}
    (J : JobId) (pre post : List Action) (w v : WorkerId) {checkedAt clock : Time}
    (hcond : ∀ h s job, (system cfg).exec clocksAgree State.empty pre = some (s, h) →
      job.id = J → cond s w {} job checkedAt)
    (he : deferralRun cfg J pre post w v clock =
      some (some (J, checkedAt), true, true, some J, true)) :
    Rechecked cfg cond checkedAt clock := by
  obtain ⟨⟨s, h⟩, hs, hrest⟩ := Option.bind_eq_some_iff.mp he
  obtain ⟨⟨t, es⟩, ht, hrest⟩ := Option.bind_eq_some_iff.mp hrest
  obtain ⟨⟨u, k⟩, hu, hrest⟩ := Option.map_eq_some_iff.mp hrest
  obtain ⟨hdef, hrest⟩ := Prod.mk.inj hrest
  obtain ⟨hok, hrest⟩ := Prod.mk.inj hrest
  obtain ⟨hmem, hrest⟩ := Prod.mk.inj hrest
  obtain ⟨hlim, hok'⟩ := Prod.mk.inj hrest
  obtain ⟨job, hpc, rfl⟩ := deferring_of_deferring? hdef
  obtain ⟨job', hpc', hid⟩ := limiting_of_limiting? hlim
  exact .intro (Lts.run_of_exec initial_empty hs) hpc (hcond h s job hs rfl) hok ht
    (of_decide_eq_true hmem) (Lts.path_of_exec post hu) hpc' hid hok' rfl

/-- Job `8` is rejected at the second `0` and deferred to the second `3601`; with
the lookahead of five seconds it is promoted at the second `3596` and checked
again, in the same hour. -/
theorem not_deferral_leaves_window :
    ¬ NotLookedAtAgain { rateLimitPerHour := 1 } (fun _ _ _ _ _ => True) := by
  intro hno
  have hre : Rechecked { rateLimitPerHour := 1 } (fun _ _ _ _ _ => True) 0 (3596 * second) :=
    rechecked_of_replay 8
      (.createJob 7 plainJob :: promotion 0 7 ++ claim 1 ++ [work 1, work 1] ++
        .createJob 8 plainJob :: promotion 1 8 ++ claim 2 ++ [work 2, work 2, work 2])
      (clock (3596 * second) :: promotion 2 8 ++ claim 3 ++ [work 3]) 2 3
      (fun _ _ _ _ _ => trivial) (by decide +kernel)
  exact absurd (hno 0 (3596 * second) hre) (by decide)

/-- With a lookahead of one second job `7` is promoted when the window opens. -/
theorem deferral_leaves_window_promotion :
    Rechecked { rateLimitPerHour := 0, schedulerLookaheadSeconds := 1 }
      (Deferrable { rateLimitPerHour := 0, schedulerLookaheadSeconds := 1 }) 0 (3600 * second) ∧
    (0 : Time) / hour < 3600 * second / hour := by
  have hre : Rechecked { rateLimitPerHour := 0, schedulerLookaheadSeconds := 1 }
      (Deferrable { rateLimitPerHour := 0, schedulerLookaheadSeconds := 1 }) 0
      (3600 * second) := by
    refine rechecked_of_replay 7
      (.createJob 7 plainJob :: promotion 0 7 ++ claim 1 ++ [work 1, work 1, work 1])
      (clock (3600 * second) :: promotion 1 7 ++ claim 2 ++ [work 2]) 1 2
      (fun h s job hs _ => ⟨Or.inr (by decide), fun v hv x hx => ?_⟩) (by decide +kernel)
    have hout : v ∉ (Action.createJob 7 plainJob :: promotion 0 7 ++ claim 1 ++
        [work 1, work 1, work 1]).filterMap Action.worker? := by
      simpa [promotion, claim, work, schedule, Action.worker?] using Ne.symm hv
    rw [worker_of_exec hs hout] at hx
    cases hx
  exact ⟨hre, deferral_leaves_window _ 0 (3600 * second) hre⟩

end NotifyQueue
