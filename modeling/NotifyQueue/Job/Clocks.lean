import NotifyQueue.Job.Awaits
import NotifyQueue.Job.Moves

/-!
# The clocks

Only a `tick` moves a clock: no process writes `NOW()` of the database or the
time of Redis.  `forward` is the guard under which the database clock never
goes back, and `now_le` what it gives: later states have later clocks.

A promotion is the one place where the database clock decides over a row;
`due_of_promoting` says what it has checked.
-/

namespace NotifyQueue

open KeyedTable

/-- The time of the database and the time of Redis. -/
def Shared.clocks (sh : Shared) : Time × Time := (sh.db.now, sh.redis.now)

/-- The database clock does not go back. -/
def forward (s : State) : Action → Bool
  | .tick t _ => decide (s.db.now ≤ t)
  | _ => true

variable {cfg : Settings} {s t : State} {a : Action} {es : List Event} {J : JobId}

/-! ### Over one `await` -/

theorem fetchrow_now {db db' : Db} {u : Update Job} (h : db.fetchrow u = some db') :
    db'.now = db.now := by
  obtain ⟨-, rfl⟩ := fetchrow_eq_some.mp h
  rfl

theorem deadLetterTxn_now {db db' : Db} {job : LetterFields} {error : Option String} {n : Nat}
    {expected : Option WorkerId}
    (h : deadLetterTxn db job error n expected none = (db', .committed)) : db'.now = db.now := by
  obtain ⟨marked, hm, rfl⟩ := deadLetterTxn_committed h
  show marked.now = db.now
  exact fetchrow_now hm

theorem workerNext_clocks {w : WorkerId} {env : Env} {sh sh' : Shared} {pc pc' : WorkerPc}
    (h : workerNext cfg w env sh pc = some (sh', pc', es)) : sh'.clocks = sh.clocks := by
  cases worker_await h with
  | pop hz => rw [Shared.clocks, Shared.clocks, Redis.zpopmin_frame hz]
  | lock hl => rw [Shared.clocks, Shared.clocks, Redis.setLock_frame hl]
  | claim hf | settle _ hf => rw [Shared.clocks, Shared.clocks, fetchrow_now hf]
  | bury _ htxn => rw [Shared.clocks, Shared.clocks, deadLetterTxn_now htxn]
  | fire hw | refire hw => exact Prod.ext (fireWebhook_frame hw).1 rfl
  | _ => rfl

theorem schedulerNext_clocks {env : Env} {sh sh' : Shared} {pc pc' : SchedulerPc}
    (h : schedulerNext cfg env sh pc = some (sh', pc', es)) : sh'.clocks = sh.clocks := by
  cases scheduler_await h with
  | promote _ hdb | recover _ hdb =>
    subst hdb
    rfl
  | enqueue | reenqueue => rw [Shared.clocks, Shared.clocks, Redis.enqueue_frame]
  | bury htxn => rw [Shared.clocks, Shared.clocks, deadLetterTxn_now htxn]
  | fire hw | refire hw => exact Prod.ext (fireWebhook_frame hw).1 rfl
  | _ => rfl

/-! ### Over a step of the system -/

/-- **Only a tick moves a clock.** -/
theorem clocks_of_step (h : step cfg s a = some (t, es)) (ha : ∀ x y, a ≠ .tick x y) :
    t.clocks = s.clocks := by
  cases a with
  | worker w c =>
    cases worker_moves h with
    | run hn => exact workerNext_clocks hn
    | raise hn => rw [(worker_raise hn).1]
    | beat hdb hredis =>
      rw [Shared.clocks, Shared.clocks, hdb, hredis]
      rfl
    | loseHeartbeat hsh | crash hsh => rw [hsh]
  | scheduler k c =>
    cases scheduler_moves h with
    | run hn => exact schedulerNext_clocks hn
    | raise hn => rw [(scheduler_raise hn).1]
    | crash hsh => rw [hsh]
  | createJob id body =>
    obtain ⟨jobs, -, he⟩ := Option.map_eq_some_iff.mp h
    cases he
    rfl
  | retryJob id =>
    simp only [step] at h
    split at h
    · cases h; rfl
    · rename_i hf
      cases h
      exact Prod.ext (fetchrow_now hf) rfl
  | tick x y => exact absurd rfl (ha x y)
  | redisFault =>
    cases h
    rfl

theorem now_le (h : step cfg s a = some (t, es)) (hok : forward s a = true) :
    s.db.now ≤ t.db.now := by
  by_cases ha : ∀ x y, a ≠ .tick x y
  · exact le_of_eq (congrArg Prod.fst (clocks_of_step h ha)).symm
  · simp only [not_forall, ne_eq, not_not] at ha
    obtain ⟨x, y, rfl⟩ := ha
    cases h
    exact of_decide_eq_true hok

/-! ### Promotions -/

/-- **What a promotion has checked of a row**: it was pending and due. -/
theorem due_of_promoting {k : SchedulerId} {env : Env} {r : Job}
    (h : step cfg s (.scheduler k (.run env)) = some (t, es))
    (hpc : s.schedulers k = .promoting) (hJ : J ∈ env.batch) (hr : s.row J = some r) :
    r.status = .pending ∧ r.sendAt ≤ s.db.now + cfg.schedulerLookaheadSeconds * second := by
  have ha := scheduler_await (scheduler_run h)
  rw [hpc] at ha
  generalize t.toShared = sh at ha
  cases ha with
  | promote hp =>
    obtain ⟨r', hr', hd⟩ := promotes_mem hp hJ
    cases (show s.db.row J = some r from hr).symm.trans hr'
    obtain ⟨hst, hsend, -⟩ := due_iff.mp hd
    exact ⟨hst, hsend⟩

end NotifyQueue
