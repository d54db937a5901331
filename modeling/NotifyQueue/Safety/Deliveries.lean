import Mathlib.Algebra.Order.BigOperators.Group.Finset
import Mathlib.Data.Int.Interval
import Mathlib.Tactic.Ring
import NotifyQueue.Lib.Handoff
import NotifyQueue.Safety.RateLimit

/-!
# Deliveries keep to the rate limit

The counter of a window admits so many checks; what a recipient sees is the
delivery attempts, successful or not.  `reporting` is the system with both
reported, each by the worker that runs it.  An attempt directly follows a check of
the same worker for the same job that allowed it (`Passing`), so it is charged to
the window of that check, and no window is charged more than the limit.

A check falls into the hour of its clock, or into the hour before, as the clock
may be up to an hour behind that of Redis.  Over a run the hours are counted
(`path_windowed`), and so are the deliveries.
-/

namespace NotifyQueue

open Handoff

/-- A check of the rate limit, or an attempt at a delivery. -/
inductive DeliveryReport
  | checked (id : JobId) (key : WindowKey) (allowed : Bool)
  | delivery (id : JobId) (recipient : String)
deriving DecidableEq

/-- What a worker reports of an `await`. -/
def reports (s t : State) : Action → List (WorkerId × DeliveryReport)
  | .worker w (.run env) =>
    match (s.workers w).pc with
    | .limiting job =>
      [(w, .checked job.id (windowKey job.recipient env.clock) (t.workers w).pc.isDelivering)]
    | .delivering job => [(w, .delivery job.id job.recipient)]
    | _ => []
  | _ => []

/-- The system, with checks and deliveries reported. -/
def reporting (cfg : Settings) : Lts.System State Action (WorkerId × DeliveryReport) :=
  (system cfg).observe (fun s a t _ => reports s t a)

namespace DeliveryReport

/-- The increment that a check runs. -/
def check? : DeliveryReport → Option Check
  | .checked _ key allowed => some ⟨key, allowed⟩
  | .delivery _ _ => none

/-- Whom a check admits. -/
def admits : DeliveryReport → Option (JobId × String)
  | .checked id key true => some (id, key.recipient)
  | _ => none

/-- Whom a delivery is for. -/
def delivers : DeliveryReport → Option (JobId × String)
  | .delivery id recipient => some (id, recipient)
  | .checked _ _ _ => none

/-- The window that admits. -/
def window : DeliveryReport → Option WindowKey
  | .checked _ key true => some key
  | _ => none

def isDelivery : DeliveryReport → Bool
  | .delivery _ _ => true
  | .checked _ _ _ => false

end DeliveryReport

/-- The checks of a history. -/
def checks (h : List (WorkerId × DeliveryReport)) : List Check := h.filterMap (fun x => x.2.check?)

/-- How many attempts at a delivery there have been for a recipient. -/
def deliveriesTo (recipient : String) (h : List (WorkerId × DeliveryReport)) : Nat :=
  h.countP (fun x => decide (x.2.delivers.map Prod.snd = some recipient))

/-- How many of them are charged to a window, the one of the worker's latest check. -/
def charged (key : WindowKey) (h : List (WorkerId × DeliveryReport)) : Nat :=
  (sourced DeliveryReport.window h).countP
    (fun y => y.2.1.isDelivery && decide (y.2.2 = some key))

variable {cfg : Settings} {s t : State} {a : Action} {es : List Event}
  {h : List (WorkerId × DeliveryReport)} {key : WindowKey}

/-! ### Each delivery has been checked -/

/-- Deliveries follow their checks, and a worker about to deliver has just passed
the check for the job. -/
structure Passing (h : List (WorkerId × DeliveryReport)) (s : State) : Prop where
  handed : Handed DeliveryReport.admits DeliveryReport.delivers h
  passed : ∀ w job, (s.workers w).pc = .delivering job →
    (latest w h).bind DeliveryReport.admits = some (job.id, job.recipient)

/-- The job a worker is about to deliver. -/
def WorkerPc.delivers : WorkerPc → Option Job
  | .delivering job => some job
  | _ => none

theorem reports_of_idle (hw : ∀ w env, a ≠ .worker w (.run env)) : reports s t a = [] := by
  cases a with
  | worker w c =>
    cases c with
    | run env => exact absurd rfl (hw w env)
    | _ => rfl
  | _ => rfl

theorem limiting_of_delivering {w : WorkerId} {env : Env} {sh sh' : Shared} {pc : WorkerPc}
    {job : Job} (h : workerNext cfg w env sh pc = some (sh', .delivering job, es)) :
    pc = .limiting job := by
  generalize hpc' : WorkerPc.delivering job = pc' at h
  cases worker_await h with
  | allow =>
    cases hpc'
    rfl
  | _ => cases hpc'

theorem passing_step (hstep : step cfg s a = some (t, es)) (hi : Passing h s) :
    Passing (reports s t a ++ h) t := by
  by_cases hrun : ∃ w env, a = .worker w (.run env)
  case neg =>
    have hidle : ∀ w env, a ≠ .worker w (.run env) := fun w env ha => hrun ⟨w, env, ha⟩
    rw [reports_of_idle hidle]
    refine ⟨hi.handed, fun v job hpc => hi.passed v job ?_⟩
    have hd : (t.workers v).pc.delivers = some job := by rw [hpc]; rfl
    have hs := held_of_idle (f := WorkerPc.delivers) ⟨rfl, rfl, rfl⟩ hstep (hidle v) hd
    generalize (s.workers v).pc = pc at hs
    cases pc <;> cases hs
    rfl
  obtain ⟨w, env, rfl⟩ := hrun
  have hothers : ∀ v, v ≠ w → t.workers v = s.workers v := fun v hv =>
    worker_frame hstep (fun c hc => by cases hc; exact hv rfl)
  have hself : ∀ job, (t.workers w).pc = .delivering job → (s.workers w).pc = .limiting job := by
    intro job hpc
    have hn := worker_run hstep
    rw [hpc] at hn
    exact limiting_of_delivering hn
  -- what the worker reports is the latest of its own, and leaves those of the others alone
  have hreport : ∀ x, reports s t (.worker w (.run env)) = [(w, x)] →
      (∀ job, (s.workers w).pc = .limiting job → (t.workers w).pc = .delivering job →
        x.admits = some (job.id, job.recipient)) →
      (∀ k, x.delivers = some k → (latest w h).bind DeliveryReport.admits = some k) →
      Passing (reports s t (.worker w (.run env)) ++ h) t := by
    intro x hx hadmits hdelivers
    rw [hx]
    refine ⟨⟨hdelivers, hi.handed⟩, fun v job hpc => ?_⟩
    by_cases hv : v = w
    · subst hv
      rw [List.singleton_append, latest_self]
      exact hadmits job (hself job hpc) hpc
    · rw [hothers v hv] at hpc
      rw [List.singleton_append, latest_other (Ne.symm hv)]
      exact hi.passed v job hpc
  cases hpc : (s.workers w).pc with
  | limiting job =>
    refine hreport (.checked job.id (windowKey job.recipient env.clock)
      (t.workers w).pc.isDelivering) (by simp only [reports, hpc]) (fun job' hs ht => ?_)
      (fun k hk => by cases hk)
    cases hpc.symm.trans hs
    rw [ht]
    rfl
  | delivering job =>
    refine hreport (.delivery job.id job.recipient) (by simp only [reports, hpc])
      (fun job' hs _ => ?_) (fun k hk => ?_)
    · cases hpc.symm.trans hs
    · cases hk
      exact hi.passed w job hpc
  | _ =>
    have hnone : reports s t (.worker w (.run env)) = [] := by simp only [reports, hpc]
    rw [hnone]
    refine ⟨hi.handed, fun v job hd => ?_⟩
    by_cases hv : v = w
    · subst hv
      cases hpc.symm.trans (hself job hd)
    · rw [hothers v hv] at hd
      exact hi.passed v job hd

/-! ### Each window is charged its admissions at most -/

theorem checks_append (k h : List (WorkerId × DeliveryReport)) :
    checks (k ++ h) = checks k ++ checks h :=
  List.filterMap_append

theorem checks_reports : checks (reports s t a) = (check? s t a).toList := by
  cases a with
  | worker w c =>
    cases c with
    | run env =>
      rw [check?, reports]
      cases (s.workers w).pc <;> rfl
    | _ => rfl
  | _ => rfl

/-- **No more is charged to a window than it has admitted.** -/
theorem charged_le (key : WindowKey) (h : List (WorkerId × DeliveryReport)) :
    charged key h ≤ admissions key (checks h) := by
  refine (countP_sourced_le (fun x hx => ?_) key h).trans (le_of_eq ?_)
  · cases x with
    | checked => cases hx
    | delivery => rfl
  · rw [admissions, checks, List.countP_filterMap]
    refine List.countP_congr (fun x _ => ?_)
    obtain ⟨w, x⟩ := x
    cases x with
    | checked id key' allowed =>
      cases allowed <;> simp [DeliveryReport.window, DeliveryReport.check?]
    | delivery => simp [DeliveryReport.window, DeliveryReport.check?]

/-- **A delivery is charged** to a window of its recipient, one that has been checked. -/
theorem window_of_delivery {w : WorkerId} {x : DeliveryReport} {k : Option WindowKey}
    {recipient : String} (hh : Handed DeliveryReport.admits DeliveryReport.delivers h)
    (hy : (w, (x, k)) ∈ sourced DeliveryReport.window h)
    (hx : x.delivers.map Prod.snd = some recipient) :
    ∃ key, k = some key ∧ key.recipient = recipient ∧ ∃ c ∈ checks h, c.key = key := by
  obtain ⟨⟨id, r⟩, hd, rfl⟩ := Option.map_eq_some_iff.mp hx
  obtain ⟨e, he, ho, rfl⟩ := hh.exists_of_mem_sourced hy hd
  cases e with
  | delivery => cases ho
  | checked id' key allowed =>
    cases allowed with
    | false => cases ho
    | true =>
      cases ho
      exact ⟨key, rfl, rfl, ⟨key, true⟩, List.mem_filterMap.mpr ⟨_, he, rfl⟩, rfl⟩

theorem deliveriesTo_le_sum (recipient : String) (hours : Finset Int)
    (hh : Handed DeliveryReport.admits DeliveryReport.delivers h)
    (hhours : ∀ c ∈ checks h, c.key.hour ∈ hours) :
    deliveriesTo recipient h ≤ ∑ k ∈ hours, charged ⟨recipient, k⟩ h := by
  let p : WorkerId × (DeliveryReport × Option WindowKey) → Bool :=
    fun y => decide (y.2.1.delivers.map Prod.snd = some recipient)
  have hcount : deliveriesTo recipient h = (sourced DeliveryReport.window h).countP p :=
    (countP_sourced (fun x : WorkerId × DeliveryReport =>
      decide (x.2.delivers.map Prod.snd = some recipient)) h).symm
  have hkey : ∀ y ∈ sourced DeliveryReport.window h, p y = true →
      ∃ k ∈ hours, y.2.2.map WindowKey.hour = some k := by
    rintro ⟨w, x, k⟩ hy hp
    obtain ⟨key, rfl, -, c, hc, rfl⟩ := window_of_delivery hh hy (of_decide_eq_true hp)
    exact ⟨c.key.hour, hhours c hc, rfl⟩
  rw [hcount, ← Lts.sum_countP_filter hkey]
  refine Finset.sum_le_sum (fun k _ => ?_)
  rw [charged, List.countP_filter]
  refine List.countP_mono_left (fun y hy hp => ?_)
  obtain ⟨w, x, k'⟩ := y
  rw [Bool.and_eq_true, decide_eq_true_eq, decide_eq_true_eq] at hp
  obtain ⟨key, rfl, hr, -⟩ := window_of_delivery hh hy hp.1
  have hwindow : key = ⟨recipient, k⟩ := by
    rw [← hr, ← Option.some.inj hp.2]
  have hdelivery : x.isDelivery = true := by
    cases x with
    | delivery => rfl
    | checked => cases hp.1
  simp [hwindow, hdelivery]

/-! ### The windows of a run -/

/-- The windows of the checks, in a run that starts at `start`. -/
def Windowed (start : Time) (h : List (WorkerId × DeliveryReport)) (s : State) : Prop :=
  start ≤ s.redis.now ∧
    ∀ c ∈ checks h, start / hour - 1 ≤ c.key.hour ∧ c.key.hour ≤ s.redis.now / hour

/-- A check falls into the hour of Redis, or into the one before. -/
theorem hour_of_check (recipient : String) {clock now : Time} (hlo : clock ≤ now)
    (hhi : now < clock + hour) : now / hour - 1 ≤ (windowKey recipient clock).hour ∧
      (windowKey recipient clock).hour ≤ now / hour := by
  have hsucc : (clock + hour) / hour = clock / hour + 1 := Int.add_ediv_of_dvd_right ⟨1, rfl⟩
  refine ⟨?_, Int.ediv_le_ediv hour_pos hlo⟩
  have hle : now / hour ≤ (clock + hour) / hour := Int.ediv_le_ediv hour_pos hhi.le
  rw [hsucc] at hle
  exact Int.sub_right_le_of_le_add hle

theorem limiting_of_check {c : Check} (hc : check? s t a = some c) :
    ∃ w env job, a = .worker w (.run env) ∧ (s.workers w).pc = .limiting job ∧
      c.key = windowKey job.recipient env.clock := by
  unfold check? at hc
  split at hc
  · split at hc
    · rename_i w env _ job hpc
      cases hc
      exact ⟨w, env, job, rfl, hpc, rfl⟩
    · cases hc
  · cases hc

theorem windowed_step {start : Time} (hok : windowGuard s a = true)
    (hstep : step cfg s a = some (t, es)) (hw : Windowed start h s) :
    Windowed start (reports s t a ++ h) t := by
  have hnow := redis_now_le hok hstep
  obtain ⟨hstart, hchecks⟩ := hw
  refine ⟨hstart.trans hnow, fun c hc => ?_⟩
  rw [checks_append, checks_reports] at hc
  have hmono : s.redis.now / hour ≤ t.redis.now / hour := Int.ediv_le_ediv hour_pos hnow
  rcases List.mem_append.mp hc with hc | hc
  · obtain ⟨w, env, job, rfl, hpc, hkey⟩ := limiting_of_check (Option.mem_toList.mp hc)
    rw [windowGuard, hpc] at hok
    simp only [Bool.and_eq_true, decide_eq_true_eq] at hok
    obtain ⟨hlo, hhi⟩ := hour_of_check job.recipient hok.1 hok.2
    rw [hkey]
    refine ⟨le_trans ?_ hlo, hhi.trans hmono⟩
    exact Int.sub_le_sub_right (Int.ediv_le_ediv hour_pos hstart) 1
  · obtain ⟨hlo, hhi⟩ := hchecks c hc
    exact ⟨hlo, hhi.trans hmono⟩

/-! ### The whole run -/

section
variable {s₀ : State}

theorem path_passing {ok : State → Action → Bool} (hi : Initial s₀)
    (hp : Lts.Path (reporting cfg) ok s₀ h s) : Passing h s := by
  refine hp.invariant (I := Passing) ⟨trivial, fun w job hpc => ?_⟩
    (fun h s a t es _ ih _ hstep => ?_)
  · rw [hi.workers] at hpc
    cases hpc
  · obtain ⟨es, hs, rfl⟩ := Lts.step_of_observe hstep
    exact passing_step hs ih

theorem path_windowed (hp : Lts.Path (reporting cfg) windowGuard s₀ h s) :
    Windowed s₀.redis.now h s := by
  refine hp.invariant (I := Windowed s₀.redis.now) ⟨le_rfl, fun c hc => by cases hc⟩
    (fun h s a t es _ ih hok hstep => ?_)
  obtain ⟨es, hs, rfl⟩ := Lts.step_of_observe hstep
  exact windowed_step hok hs ih

/-- The books of a counter that is not there yet. -/
theorem metered_start (hL : 0 ≤ cfg.rateLimitPerHour) (hi : Initial s₀)
    (hk : s₀.redis.counter key = none) : Metered cfg key [] s₀ := by
  have hb := Budget.books_empty (π := WorkerId) hL
  refine ⟨hb.exact, fun _ => ⟨0, ∅, Or.inl ⟨hk, rfl⟩, hb, fun w => ?_⟩⟩
  rw [hi.workers]
  simp [Worker.start, WorkerPc.undoes]

theorem path_metered (hL : 0 ≤ cfg.rateLimitPerHour) (hi : Initial s₀)
    (hk : s₀.redis.counter key = none) (hp : Lts.Path (reporting cfg) windowGuard s₀ h s) :
    Metered cfg key (checks h) s := by
  refine hp.invariant (I := fun h s => Metered cfg key (checks h) s) (metered_start hL hi hk)
    (fun h s a t es _ ih hok hstep => ?_)
  obtain ⟨es, hs, rfl⟩ := Lts.step_of_observe hstep
  rw [checks_append, checks_reports]
  exact metered_step hok hs ih

/-- **The rate limit holds of what is delivered.**  In a run from a start without
counters for a recipient, as long as Redis keeps its data and no increment is an
hour late, each attempt at a delivery directly follows a check of the same worker for
the same job that allowed it.  The attempts charged to an hour are no more than the
limit, and those of all the run no more than the limit for each hour that it
touches, and the hour before its start. -/
theorem deliveries_limited (recipient : String) (hL : 0 ≤ cfg.rateLimitPerHour) (hi : Initial s₀)
    (hk : ∀ key, key.recipient = recipient → s₀.redis.counter key = none)
    (hp : Lts.Path (reporting cfg) windowGuard s₀ h s) :
    Handed DeliveryReport.admits DeliveryReport.delivers h ∧
    (∀ key, key.recipient = recipient → (charged key h : Int) ≤ cfg.rateLimitPerHour) ∧
    (deliveriesTo recipient h : Int) ≤
      cfg.rateLimitPerHour * (s.redis.now / hour - s₀.redis.now / hour + 2) := by
  have hpass := path_passing hi hp
  have hcharged : ∀ key, key.recipient = recipient →
      (charged key h : Int) ≤ cfg.rateLimitPerHour := by
    intro key hkey
    have hexact := (path_metered hL hi (hk key hkey) hp).exact
    have hle := charged_le key h
    omega
  refine ⟨hpass.handed, hcharged, ?_⟩
  obtain ⟨hnow, hwindows⟩ := path_windowed hp
  let hours := Finset.Icc (s₀.redis.now / hour - 1) (s.redis.now / hour)
  have hsum := deliveriesTo_le_sum recipient hours hpass.handed
    (fun c hc => Finset.mem_Icc.mpr (hwindows c hc))
  have hcard : (hours.card : Int) = s.redis.now / hour - s₀.redis.now / hour + 2 := by
    have hle : s₀.redis.now / hour ≤ s.redis.now / hour := Int.ediv_le_ediv hour_pos hnow
    rw [Int.card_Icc, Int.toNat_of_nonneg]
    · ring
    · exact Int.sub_nonneg.mpr ((Int.sub_le_self _ Int.one_nonneg).trans
        (hle.trans (Int.le_add_of_nonneg_right Int.one_nonneg)))
  have htotal : deliveriesTo recipient h ≤ hours.card * cfg.rateLimitPerHour.toNat := by
    refine hsum.trans (Finset.sum_le_card_nsmul hours _ _ (fun k _ => ?_))
    exact Int.le_toNat hL |>.mpr (hcharged _ rfl)
  calc (deliveriesTo recipient h : Int)
      ≤ ((hours.card * cfg.rateLimitPerHour.toNat : Nat) : Int) := Int.ofNat_le.mpr htotal
    _ = (s.redis.now / hour - s₀.redis.now / hour + 2) * cfg.rateLimitPerHour := by
      rw [Int.natCast_mul, hcard, Int.toNat_of_nonneg hL]
    _ = cfg.rateLimitPerHour * (s.redis.now / hour - s₀.redis.now / hour + 2) :=
      Int.mul_comm _ _

end

/-- With one delivery an hour: worker `1` delivers job `7`, worker `2` does not get
to deliver job `8` to the same recipient. -/
theorem deliveries_limited_rejection : ∃ h s,
    Lts.Path (reporting { rateLimitPerHour := 1 }) windowGuard State.empty h s ∧
    tries ⟨"user@example.com", 0⟩ (checks h) = 2 ∧ deliveriesTo "user@example.com" h = 1 ∧
    charged ⟨"user@example.com", 0⟩ h ≤ 1 := by
  have hrun : (((reporting { rateLimitPerHour := 1 }).exec windowGuard State.empty
      (.createJob 7 plainJob :: promotion 0 7 ++ claim 1 ++ [work 1, work 1, work 1] ++
        .createJob 8 plainJob :: promotion 1 8 ++ claim 2 ++ [work 2, work 2, work 2, work 2])).map
      (fun p => (tries ⟨"user@example.com", 0⟩ (checks p.2),
        deliveriesTo "user@example.com" p.2))) = some (2, 1) := by decide +kernel
  obtain ⟨⟨s, h⟩, he, hn⟩ := Option.map_eq_some_iff.mp hrun
  obtain ⟨htries, hcalls⟩ := Prod.mk.inj hn
  have hp := Lts.path_of_exec _ he
  obtain ⟨-, hcharged, -⟩ := deliveries_limited "user@example.com" (by decide)
    initial_empty (fun _ _ => rfl) hp
  exact ⟨h, s, hp, htries, hcalls, Int.ofNat_le.mp (hcharged _ rfl)⟩

end NotifyQueue
