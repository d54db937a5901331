import NotifyQueue.Job.Clocks
import NotifyQueue.Job.Copies
import NotifyQueue.Lib.Budget

/-!
# The rate limit is exact

`check_rate_limit` increments the counter of the current hour and undoes it
when it is over the limit, each in one Redis command, with anything in between.
`checked` is the system with the increments reported and whether the call
allowed the delivery.

The books of `Budget` hold of the counter of one window for as long as an
increment can still come: until `windowClose`, two hours after the window
opens, since an increment is less than an hour late.  The time to live is that
long from any increment on, so the counter is there when it is needed.
-/

namespace NotifyQueue

/-- An increment of a rate-limit counter, and whether the delivery was allowed. -/
structure Check where
  key : WindowKey
  allowed : Bool
deriving DecidableEq

/-- The delivery goes on after the check. -/
def WorkerPc.isDelivering : WorkerPc → Bool
  | .delivering _ => true
  | _ => false

/-- The increment a step runs. -/
def check? (s t : State) : Action → Option Check
  | .worker w (.run env) =>
    match (s.workers w).pc with
    | .limiting job =>
      some ⟨windowKey job.recipient env.clock, (t.workers w).pc.isDelivering⟩
    | _ => none
  | _ => none

/-- The system, with the increments reported. -/
def checked (cfg : Settings) : Lts.System State Action Check :=
  (system cfg).observe (fun s a t _ => (check? s t a).toList)

/-- Redis keeps its data, its clock does not go back, and an increment runs less
than an hour after its call has read the clock. -/
def windowGuard (s : State) : Action → Bool
  | .redisFault _ _ _ => false
  | .tick _ u => decide (s.redis.now ≤ u)
  | .worker w (.run env) =>
    match (s.workers w).pc with
    | .limiting _ => decide (env.clock ≤ s.redis.now) && decide (s.redis.now < env.clock + hour)
    | _ => true
  | _ => true

/-- How many increments of a counter have run. -/
def tries (key : WindowKey) (h : List Check) : Nat := h.countP (fun c => decide (c.key = key))

/-- How many of them allowed the delivery. -/
def admissions (key : WindowKey) (h : List Check) : Nat :=
  h.countP (fun c => decide (c.key = key) && c.allowed)

/-- From when on no increment of the counter can come any more. -/
def windowClose (key : WindowKey) : Time := (key.hour + 2) * hour

/-- The counter a worker has still to decrement. -/
def WorkerPc.undoes : WorkerPc → Option WindowKey
  | .undoing job checkedAt => some (windowKey job.recipient checkedAt)
  | _ => none

variable {cfg : Settings} {s t : State} {a : Action} {es : List Event} {h : List Check}
  {key : WindowKey}

/-! ### Windows -/

theorem hour_pos : 0 < hour := by decide

theorem window_bounds {recipient : String} {clock now : Time}
    (hk : windowKey recipient clock = key) (hlo : clock ≤ now) (hhi : now < clock + hour) :
    key.hour * hour ≤ now ∧ now < windowClose key := by
  subst hk
  have h1 : clock / hour * hour ≤ clock := Int.ediv_mul_le clock hour_pos.ne'
  have h2 : clock + hour < (clock / hour + 2) * hour := by
    have := Int.add_lt_add_right (Int.lt_ediv_add_one_mul_self clock hour_pos) hour
    rwa [Int.add_mul, Int.one_mul, Int.add_assoc, ← Int.two_mul, ← Int.add_mul] at this
  exact ⟨h1.trans hlo, hhi.trans h2⟩

/-- A counter with the given value that lasts until the given time. -/
def Lasting (c : Option Counter) (until_ : Time) (value : Int) : Prop :=
  (c = none ∧ value = 0) ∨ ∃ e, c = some ⟨value, some e⟩ ∧ until_ ≤ e

theorem counter?_of_lasting {rd : Redis} {value : Int}
    (hl : Lasting (rd.counter key) (windowClose key) value) (hnow : rd.now < windowClose key) :
    rd.counter? key = rd.counter key := by
  rw [Redis.counter?]
  rcases hl with ⟨hc, -⟩ | ⟨e, hc, he⟩
  · rw [hc]
    rfl
  · have : rd.now ≤ e := (lt_of_lt_of_le hnow he).le
    rw [hc]
    simp [this]

/-- **`INCR_WITH_TTL` on a window that is open**: it counts one up, and the
counter lasts. -/
theorem incr_of_lasting {rd : Redis} {value : Int}
    (hl : Lasting (rd.counter key) (windowClose key) value) (hlo : key.hour * hour ≤ rd.now)
    (hnow : rd.now < windowClose key) :
    (rd.incrWithTtl key).1 = value + 1 ∧
      Lasting ((rd.incrWithTtl key).2.counter key) (windowClose key) (value + 1) := by
  have hfresh : windowClose key ≤ rd.now + windowTtlSeconds * second := by
    have : windowTtlSeconds * second = 2 * hour := by decide
    rw [this, windowClose, Int.add_mul]
    exact Int.add_le_add_right hlo _
  have hfound := counter?_of_lasting hl hnow
  simp only [Redis.incrWithTtl, Function.update_self, hfound]
  rcases hl with ⟨hc, rfl⟩ | ⟨e, hc, he⟩
  · rw [hc]
    exact ⟨rfl, Or.inr ⟨_, rfl, hfresh⟩⟩
  · rw [hc]
    refine ⟨rfl, Or.inr ?_⟩
    simp only [Option.getD_some]
    by_cases h1 : value + 1 = 1
    · rw [if_pos h1]
      exact ⟨_, rfl, hfresh⟩
    · rw [if_neg h1]
      exact ⟨e, rfl, he⟩

theorem decr_of_lasting {rd : Redis} {value : Int}
    (hl : Lasting (rd.counter key) (windowClose key) value) (hv : 0 < value)
    (hnow : rd.now < windowClose key) :
    Lasting ((rd.decr key).counter key) (windowClose key) (value - 1) := by
  have hfound := counter?_of_lasting hl hnow
  rcases hl with ⟨-, rfl⟩ | ⟨e, hc, he⟩
  · exact absurd hv (lt_irrefl 0)
  · refine Or.inr ⟨e, ?_, he⟩
    simp only [Redis.decr, Function.update_self, hfound, hc, Option.getD_some]

/-! ### Counters over one `await` -/

/-- **What a worker does to the counters**, over one `await`: it runs an
increment and goes on by its result, it runs the decrement it owes, or it leaves
them alone and owes none. -/
theorem workerNext_counter {w : WorkerId} {env : Env} {sh sh' : Shared} {pc pc' : WorkerPc}
    {ev : List Event} (h : workerNext cfg w env sh pc = some (sh', pc', ev)) :
    (∃ job, pc = .limiting job ∧
      sh'.redis = (sh.redis.incrWithTtl (windowKey job.recipient env.clock)).2 ∧
      pc' = if cfg.rateLimitPerHour <
          (sh.redis.incrWithTtl (windowKey job.recipient env.clock)).1 then
        .undoing job env.clock else .delivering job) ∨
    (∃ job checkedAt, pc = .undoing job checkedAt ∧
      sh'.redis = sh.redis.decr (windowKey job.recipient checkedAt) ∧ pc'.undoes = none) ∨
    ((∀ job, pc ≠ .limiting job) ∧ sh'.redis.counter = sh.redis.counter ∧
      pc'.undoes = none) := by
  cases worker_await h with
  | reject hlim => exact Or.inl ⟨_, rfl, rfl, (if_pos hlim).symm⟩
  | allow hlim => exact Or.inl ⟨_, rfl, rfl, (if_neg hlim).symm⟩
  | undo => exact Or.inr (Or.inl ⟨_, _, rfl, rfl, rfl⟩)
  | pop hz => exact Or.inr (Or.inr ⟨fun _ => by simp, by rw [Redis.zpopmin_frame hz], rfl⟩)
  | lock hl => exact Or.inr (Or.inr ⟨fun _ => by simp, by rw [Redis.setLock_frame hl], rfl⟩)
  | settle hu | lose hu => cases hu <;> exact Or.inr (Or.inr ⟨fun _ => by simp, rfl, rfl⟩)
  | _ => exact Or.inr (Or.inr ⟨fun _ => by simp, rfl, rfl⟩)

theorem schedulerNext_counter {env : Env} {sh sh' : Shared} {pc pc' : SchedulerPc}
    {ev : List Event} (h : schedulerNext cfg env sh pc = some (sh', pc', ev)) :
    sh'.redis.counter = sh.redis.counter := by
  cases scheduler_await h with
  | enqueue | reenqueue => rw [Redis.enqueue_frame]
  | _ => rfl

/-! ### The invariant -/

/-- What is known of one counter: exactly the smaller of the limit and the number
of increments was admitted, and the books hold while increments can come. -/
structure Metered (cfg : Settings) (key : WindowKey) (h : List Check) (s : State) : Prop where
  exact : (admissions key h : Int) = min cfg.rateLimitPerHour (tries key h)
  books : s.redis.now < windowClose key → ∃ (value : Int) (owing : Finset WorkerId),
    Lasting (s.redis.counter key) (windowClose key) value ∧
    Budget.Books cfg.rateLimitPerHour value (admissions key h) (tries key h) owing ∧
    ∀ w, w ∈ owing ↔ (s.workers w).pc.undoes = some key

theorem tries_cons (c : Check) (h : List Check) :
    tries key (c :: h) = tries key h + if c.key = key then 1 else 0 := by
  rw [tries, List.countP_cons]
  simp only [decide_eq_true_eq]
  rfl

theorem admissions_cons (c : Check) (h : List Check) :
    admissions key (c :: h) = admissions key h + if c.key = key ∧ c.allowed then 1 else 0 := by
  rw [admissions, List.countP_cons]
  simp only [Bool.and_eq_true, decide_eq_true_eq]
  rfl

/-- A step that leaves the counter and its checks alone. -/
theorem Metered.quiet {k : List Check} (hm : Metered cfg key h s)
    (hnow : s.redis.now ≤ t.redis.now) (hc : t.redis.counter key = s.redis.counter key)
    (hu : ∀ w, (t.workers w).pc.undoes = some key → (s.workers w).pc.undoes = some key)
    (ha : admissions key k = admissions key h) (hn : tries key k = tries key h) :
    Metered cfg key k t := by
  refine ⟨by rw [ha, hn]; exact hm.exact, fun hopen => ?_⟩
  obtain ⟨value, owing, hl, hb, ho⟩ := hm.books (lt_of_le_of_lt hnow hopen)
  refine ⟨value, owing.filter (fun w => (t.workers w).pc.undoes = some key), ?_, ?_, ?_⟩
  · rwa [hc]
  · rw [ha, hn]
    exact hb.forget (Finset.filter_subset _ _)
  · intro w
    rw [Finset.mem_filter, ho]
    exact ⟨fun h => h.2, fun h => ⟨hu w h, h⟩⟩

theorem check?_eq_none {w : WorkerId} {env : Env}
    (hpc : ∀ job, (s.workers w).pc ≠ .limiting job) :
    check? s t (.worker w (.run env)) = none := by
  rw [check?]
  split
  · rename_i job hp
    exact absurd hp (hpc job)
  · rfl

theorem check?_of_idle (hw : ∀ w env, a ≠ .worker w (.run env)) : check? s t a = none := by
  cases a with
  | worker w c =>
    cases c with
    | run env => exact absurd rfl (hw w env)
    | _ => rfl
  | _ => rfl

/-- **An increment of the counter.** -/
theorem metered_check {w : WorkerId} {env : Env} {job : Job} (hm : Metered cfg key h s)
    (hok : windowGuard s (.worker w (.run env)) = true)
    (hpc : (s.workers w).pc = .limiting job) (hkey : windowKey job.recipient env.clock = key)
    (hredis : t.redis = (s.redis.incrWithTtl key).2)
    (hpc' : (t.workers w).pc = if cfg.rateLimitPerHour < (s.redis.incrWithTtl key).1 then
      .undoing job env.clock else .delivering job)
    (hothers : ∀ v, v ≠ w → t.workers v = s.workers v) :
    Metered cfg key ((check? s t (.worker w (.run env))).toList ++ h) t := by
  rw [windowGuard, hpc] at hok
  simp only [Bool.and_eq_true, decide_eq_true_eq] at hok
  obtain ⟨hlo, hopen⟩ := window_bounds hkey hok.1 hok.2
  obtain ⟨value, owing, hl, hb, ho⟩ := hm.books hopen
  obtain ⟨hcount, hl'⟩ := incr_of_lasting hl hlo hopen
  have hw : w ∉ owing := by
    rw [ho, hpc]
    simp [WorkerPc.undoes]
  let c : Check := ⟨windowKey job.recipient env.clock, (t.workers w).pc.isDelivering⟩
  have hreport : (check? s t (.worker w (.run env))).toList ++ h = c :: h := by
    rw [check?, hpc]
    rfl
  have hn : tries key (c :: h) = tries key h + 1 := by rw [tries_cons, if_pos hkey]
  rw [hreport]
  rw [hcount] at hpc'
  rw [← hredis] at hl'
  by_cases hlim : cfg.rateLimitPerHour < value + 1
  · rw [if_pos hlim] at hpc'
    have hb' := hb.reject hlim hw
    have ha : admissions key (c :: h) = admissions key h := by
      rw [admissions_cons, if_neg (by simp [c, hpc', WorkerPc.isDelivering]), Nat.add_zero]
    rw [← ha, ← hn] at hb'
    refine ⟨hb'.exact, fun _ => ⟨_, _, hl', hb', fun v => ?_⟩⟩
    rw [Finset.mem_insert, ho]
    by_cases hv : v = w
    · subst hv
      simp [hpc', WorkerPc.undoes, hkey]
    · simp [hv, hothers v hv]
  · rw [if_neg hlim] at hpc'
    have hb' := hb.accept (not_lt.mp hlim)
    have ha : admissions key (c :: h) = admissions key h + 1 := by
      rw [admissions_cons, if_pos ⟨hkey, by simp only [c, hpc']; rfl⟩]
    rw [← ha, ← hn] at hb'
    refine ⟨hb'.exact, fun _ => ⟨_, _, hl', hb', fun v => ?_⟩⟩
    rw [ho]
    by_cases hv : v = w
    · subst hv
      simp [hpc, hpc', WorkerPc.undoes]
    · rw [hothers v hv]

/-- **A decrement of the counter**, by a worker that owes it. -/
theorem metered_undo {w : WorkerId} (hm : Metered cfg key h s)
    (hpc : (s.workers w).pc.undoes = some key) (hredis : t.redis = s.redis.decr key)
    (hpc' : (t.workers w).pc.undoes = none)
    (hothers : ∀ v, v ≠ w → t.workers v = s.workers v) : Metered cfg key h t := by
  have hnow : t.redis.now = s.redis.now := by
    rw [hredis]
    rfl
  refine ⟨hm.exact, fun hopen => ?_⟩
  rw [hnow] at hopen
  obtain ⟨value, owing, hl, hb, ho⟩ := hm.books hopen
  have hw : w ∈ owing := (ho w).mpr hpc
  refine ⟨value - 1, owing.erase w, ?_, hb.undo hw, fun v => ?_⟩
  · rw [hredis]
    exact decr_of_lasting hl (hb.pos hw) hopen
  · rw [Finset.mem_erase, ho]
    by_cases hv : v = w
    · subst hv
      simp [hpc']
    · simp [hv, hothers v hv]

theorem metered_idle (hm : Metered cfg key h s) (hnow : s.redis.now ≤ t.redis.now)
    (hc : t.redis.counter = s.redis.counter)
    (hu : ∀ w, (t.workers w).pc.undoes = some key → (s.workers w).pc.undoes = some key)
    (hno : check? s t a = none) : Metered cfg key ((check? s t a).toList ++ h) t := by
  rw [hno]
  exact hm.quiet hnow (congrFun hc key) hu rfl rfl

/-- A worker that is out of debt, or as it was, and all the others as they were. -/
theorem undoes_of_others {w : WorkerId} (hothers : ∀ v, v ≠ w → t.workers v = s.workers v)
    (hw : (t.workers w).pc.undoes = some key → (s.workers w).pc.undoes = some key) (v : WorkerId)
    (hv : (t.workers v).pc.undoes = some key) : (s.workers v).pc.undoes = some key := by
  by_cases hvw : v = w
  · subst hvw
    exact hw hv
  · rwa [hothers v hvw] at hv

theorem metered_run {w : WorkerId} {env : Env} (hm : Metered cfg key h s)
    (hok : windowGuard s (.worker w (.run env)) = true)
    (hn : workerNext cfg w env s.toShared (s.workers w).pc =
      some (t.toShared, (t.workers w).pc, es)) (hnow : s.redis.now ≤ t.redis.now)
    (hothers : ∀ v, v ≠ w → t.workers v = s.workers v) :
    Metered cfg key ((check? s t (.worker w (.run env))).toList ++ h) t := by
  rcases workerNext_counter hn with
    ⟨job, hpc, hredis, hpc'⟩ | ⟨job, checkedAt, hpc, hredis, hpc'⟩ | ⟨hpc, hc, hpc'⟩
  · by_cases hkey : windowKey job.recipient env.clock = key
    · rw [hkey] at hredis hpc'
      exact metered_check hm hok hpc hkey hredis hpc' hothers
    · -- an increment of another counter
      rw [check?, hpc]
      refine hm.quiet hnow ?_ (undoes_of_others hothers ?_) ?_ ?_
      · rw [hredis]
        exact Function.update_of_ne (Ne.symm hkey) _ _
      · rw [hpc']
        split
        · exact fun h => absurd (Option.some.inj h) hkey
        · exact fun h => by cases h
      · simp [admissions_cons, hkey]
      · simp [tries_cons, hkey]
  · have hno : check? s t (.worker w (.run env)) = none :=
      check?_eq_none (fun j hj => by cases hpc.symm.trans hj)
    by_cases hkey : windowKey job.recipient checkedAt = key
    · rw [hno]
      rw [hkey] at hredis
      exact metered_undo hm (by rw [hpc, ← hkey]; rfl) hredis hpc' hothers
    · rw [hno]
      refine hm.quiet hnow ?_ (undoes_of_others hothers ?_) rfl rfl
      · rw [hredis]
        exact Function.update_of_ne (Ne.symm hkey) _ _
      · rw [hpc']
        exact fun h => by cases h
  · refine metered_idle hm hnow hc (undoes_of_others hothers ?_)
      (check?_eq_none hpc)
    rw [hpc']
    exact fun h => by cases h

theorem redis_now_le (hok : windowGuard s a = true) (hstep : step cfg s a = some (t, es)) :
    s.redis.now ≤ t.redis.now := by
  by_cases ha : ∀ x y, a ≠ .tick x y
  · exact le_of_eq (congrArg Prod.snd (clocks_of_step hstep ha)).symm
  · simp only [not_forall, ne_eq, not_not] at ha
    obtain ⟨x, y, rfl⟩ := ha
    cases hstep
    exact of_decide_eq_true hok

/-- **One step keeps the books.** -/
theorem metered_step (hok : windowGuard s a = true) (hstep : step cfg s a = some (t, es))
    (hm : Metered cfg key h s) : Metered cfg key ((check? s t a).toList ++ h) t := by
  have hnow := redis_now_le hok hstep
  have hidle : (∀ w env, a ≠ .worker w (.run env)) → t.redis.counter = s.redis.counter →
      Metered cfg key ((check? s t a).toList ++ h) t := by
    intro hw hc
    exact metered_idle hm hnow hc (fun v hv =>
      held_of_idle (f := WorkerPc.undoes) ⟨rfl, rfl, rfl⟩ hstep (hw v) hv) (check?_of_idle hw)
  cases redis_step hstep with
  | worker hn =>
    exact metered_run hm hok hn hnow (fun v hv =>
      worker_frame hstep (fun c hc => by cases hc; exact hv rfl))
  | scheduler hn => exact hidle (by simp) (schedulerNext_counter hn)
  | idle hw _ _ _ hcounter => exact hidle hw hcounter
  | fault => cases hok

/-- **The rate limit is exact.**  From a start without the counter, as long as
Redis keeps its data and no increment is an hour late, the deliveries allowed in
an hour are exactly as many as the smaller of the limit and the increments. -/
theorem rate_limit_exact {s₀ : State} (hL : 0 ≤ cfg.rateLimitPerHour) (hi : Initial s₀)
    (hk : s₀.redis.counter key = none) (hp : Lts.Path (checked cfg) windowGuard s₀ h s) :
    (admissions key h : Int) = min cfg.rateLimitPerHour (tries key h) := by
  have hb := Budget.books_empty (π := WorkerId) hL
  have hm : Metered cfg key h s := by
    refine hp.invariant (I := Metered cfg key) ⟨hb.exact, fun _ => ⟨0, ∅, Or.inl ⟨hk, rfl⟩, hb, ?_⟩⟩
      (fun _ _ _ _ _ _ hm hok hstep => ?_)
    · intro w
      rw [hi.workers]
      simp [Worker.start, WorkerPc.undoes]
    · obtain ⟨es, hs, rfl⟩ := Lts.step_of_observe hstep
      exact metered_step hok hs hm
  exact hm.exact

/-- With one delivery an hour: worker `1` is allowed to deliver job `7`, worker
`2` is not allowed to deliver job `8` to the same recipient, and undoes its
increment. -/
theorem rate_limit_exact_rejection : ∃ h s,
    Lts.Path (checked { rateLimitPerHour := 1 }) windowGuard State.empty h s ∧
    tries ⟨"user@example.com", 0⟩ h = 2 ∧ admissions ⟨"user@example.com", 0⟩ h = 1 := by
  have hrun : (((checked { rateLimitPerHour := 1 }).exec windowGuard State.empty
      (.createJob 7 plainJob :: promotion 0 7 ++ claim 1 ++ [work 1, work 1] ++
        .createJob 8 plainJob :: promotion 1 8 ++ claim 2 ++ [work 2, work 2, work 2])).map
      (fun p => tries ⟨"user@example.com", 0⟩ p.2)) = some 2 := by decide +kernel
  obtain ⟨⟨s, h⟩, he, hn⟩ := Option.map_eq_some_iff.mp hrun
  have hp := Lts.path_of_exec _ he
  have hexact := rate_limit_exact (by decide) initial_empty (rfl :
    State.empty.redis.counter ⟨"user@example.com", 0⟩ = none) hp
  refine ⟨h, s, hp, hn, ?_⟩
  dsimp only at hn
  rw [hn] at hexact
  exact Int.ofNat_inj.mp (hexact.trans (by decide))

end NotifyQueue
