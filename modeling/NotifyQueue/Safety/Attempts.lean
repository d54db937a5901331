import NotifyQueue.Safety.Fence

/-!
# What `attempt_count` counts

`ended J h` is the number of claims of `J` that have ended in a failure or a
reclaim since the job was created or, if it was, last replayed.  A retry writes
an absolute value, one more than its snapshot had; a reclaim increments; a
dead letter writes the value its caller holds.  They all agree with `ended` as
long as what they were computed from is current:

* a worker's own snapshot is, for as long as the row names the worker as the
  owner (`Current`), which is what `ownSnapshot` is about;
* a recovered row is what `freshRecovery` is about: when the recovery path gets
  to its `dead_letter` call, the row it would hit still has the count it read.

That a job is not dead-lettered too early asks less of the recovery path: the row it
would hit is at its cap, or was dead-lettered before (`spentRecovery`).  Between the
reclaim and its `dead_letter` call the recovery path leaves a job at the cap `pending`;
`promotesBelowCap` says that no promotion comes in between.
-/

namespace NotifyQueue

open KeyedTable

/-- The events that end a claim by failure or by reclaim. -/
def Event.endsClaim : Event → Bool
  | .retried _ _ | .reclaimed _ | .deadLettered (some _) (some .claimed) _ => true
  | _ => false

/-- The events that start the count over. -/
def Event.restarts : Event → Bool
  | .created _ | .replayed _ => true
  | _ => false

/-- The claims of `J` that ended in a failure or a reclaim since its creation
or its latest replay. -/
def ended (J : JobId) (h : List Event) : Nat := tally Event.restarts Event.endsClaim J h

variable {cfg : Settings} {s t : State} {a : Action} {es h : List Event} {J : JobId}
  {before after : Option Job} {e : List Event} {ls : List DeadLetter}

theorem ended_none (he : jobEvents J es = []) (h : List Event) : ended J (es ++ h) = ended J h :=
  tally_none he h

theorem ended_one {x : Event} (he : jobEvents J es = [x]) (hx : x.restarts = false)
    (h : List Event) : ended J (es ++ h) = ended J h + (if x.endsClaim then 1 else 0) :=
  tally_one he hx h

theorem ended_restart {x : Event} (he : jobEvents J es = [x]) (hx : x.restarts = true)
    (h : List Event) : ended J (es ++ h) = 0 := tally_restart he hx h

/-! ### Own snapshots are current -/

/-- A snapshot with the worker's own id has the count of the row, as long as
the row names the worker as its owner. -/
def Current (s : State) (J : JobId) : Prop :=
  ∀ w job r, s.stake w = some ⟨J, some job⟩ → s.row J = some r → job.workerId = some w →
    r.workerId = some w → job.attemptCount = r.attemptCount

theorem current_init (hi : Initial s) (J : JobId) : Current s J := by
  intro w job r hst
  rw [stake_initial hi] at hst
  cases hst

/-- No guard is needed here: whatever takes the row away from the worker clears
the owner, and the worker cannot claim again while it has the snapshot. -/
theorem current_step (hstep : step cfg s a = some (t, es)) (hc : Current s J) : Current t J := by
  intro w job r' hst hr' hj hw
  obtain ⟨before, after, e, ls, hb, ha, he, -, hE⟩ := step_effect hstep J
  cases ha.symm.trans hr'
  rcases stake_step hstep hst with ⟨hkept, -⟩ | ⟨-, hnone, -⟩ | ⟨-, hsnap, hrow, hdb, -⟩
  · cases hE with
    | stay | deliver => exact hc w job r' hkept hb hj hw
    | promote | beat | send =>
      have hcur := hc w job _ hkept hb hj
      exact hcur hw
    | claim hpc =>
      cases hw
      rw [State.stake, hpc] at hkept
      cases hkept
    | create | retry | defer | giveUp | bury | reclaim | replay => cases hw
  · cases hnone
  · cases hsnap
    have hrow' : s.row J = some r' := by rw [← hr', State.row, State.row, hdb]
    cases hrow.symm.trans hrow'
    rfl

theorem run_current {ok : State → Action → Bool} (hr : Lts.Run (system cfg) ok h s) (J : JobId) :
    Current s J :=
  hr.invariant (I := fun _ s => Current s J) (fun _ hi => current_init hi J)
    (fun _ _ _ _ _ _ hc _ hstep => current_step hstep hc)

theorem own_outcome (hf : Fenced s J) (hc : Current s J) (hk : Known s J) {w : WorkerId}
    {job r : Job} (hpc : (s.workers w).pc.outcome? = some job) (hj : job.workerId = some w)
    (hid : job.id = J) (hr : s.row J = some r) (hw : r.workerId = job.workerId) :
    r.status = .claimed ∧ job.attemptCount = r.attemptCount ∧ job.maxAttempts = r.maxAttempts := by
  have hst : s.stake w = some ⟨J, some job⟩ := hid ▸ outcome_stake hpc
  obtain ⟨r₀, hr₀, hfix⟩ := hk.snapshot w job hst
  cases hr.symm.trans hr₀
  exact ⟨hf w _ r hst hr (hw.trans hj), hc w job r hst hr hj (hw.trans hj),
    (congrArg Prod.snd hfix).symm⟩

theorem own_retry (hf : Fenced s J) (hc : Current s J) (hk : Known s J) {w : WorkerId} {env : Env}
    (hok : ownSnapshot s (.worker w (.run env)) = true) {job r : Job} {error : String}
    (hpc : (s.workers w).pc = .failing job error) (hid : job.id = J) (hr : s.row J = some r)
    (hw : r.workerId = job.workerId) (hn : r.workerId ≠ none) :
    job.attemptCount = r.attemptCount := by
  have ho : (s.workers w).pc.outcome? = some job := by rw [hpc]; rfl
  have hj := ownSnapshot_outcome hok (outcome_of_pc env ho) (fun _ => hw ▸ hn)
  exact (own_outcome hf hc hk ho hj hid hr hw).2.1

theorem own_giveUp (hf : Fenced s J) (hc : Current s J) (hk : Known s J) {w : WorkerId} {env : Env}
    (hok : ownSnapshot s (.worker w (.run env)) = true) {job r : Job} {error : String}
    (hpc : (s.workers w).pc = .failing job error) (hid : job.id = J) (hx : exhausted job = true)
    (hr : s.row J = some r) (hw : r.workerId = job.workerId) :
    r.status = .claimed ∧ job.attemptCount = r.attemptCount ∧ job.maxAttempts = r.maxAttempts := by
  have ho : (s.workers w).pc.outcome? = some job := by rw [hpc]; rfl
  have hj := ownSnapshot_givesUp hok (outcome_of_pc env ho) hpc hx
  exact own_outcome hf hc hk ho hj hid hr hw

/-! ### The cap -/

/-- No promotion takes a job that is at its cap, unless its cap allows no attempt. -/
def promotesBelowCap (s : State) : Action → Bool
  | .scheduler k (.run env) =>
    match s.schedulers k with
    | .promoting => env.batch.all (fun id => (s.row id).all (fun r =>
        decide (1 ≤ r.maxAttempts → (r.attemptCount : Int) < r.maxAttempts)))
    | _ => true
  | _ => true

/-- The condition under which the cap holds. -/
def capGuard (s : State) (a : Action) : Bool := ownSnapshot s a && promotesBelowCap s a

theorem promotesBelowCap_row {k : SchedulerId} {env : Env} {r : Job}
    (hok : promotesBelowCap s (.scheduler k (.run env)) = true) (hpc : s.schedulers k = .promoting)
    (hJ : J ∈ env.batch) (hr : s.row J = some r) (hmax : 1 ≤ r.maxAttempts) :
    (r.attemptCount : Int) < r.maxAttempts := by
  rw [promotesBelowCap, hpc] at hok
  have hrow := List.all_eq_true.mp hok J hJ
  rw [hr] at hrow
  exact of_decide_eq_true hrow hmax

/-- What the cap rests on, after `n` ended claims. -/
structure Capped (n : Nat) (status : JobStatus) (attempts : Nat) (max : Int) : Prop where
  below : 1 ≤ max → status = .queued ∨ status = .claimed → (attempts : Int) < max
  counted : status = .pending ∨ status = .queued ∨ status = .claimed → n ≤ attempts
  bounded : 1 ≤ max → (n : Int) ≤ max

theorem capped_zero (max : Int) : Capped 0 .pending 0 max := by
  refine ⟨?_, fun _ => Nat.le_refl 0, fun h => ?_⟩
  · rintro - (h | h) <;> cases h
  · omega

section
variable {n attempts : Nat} {max : Int} {status : JobStatus}

/-- A claim that ends leaves room for its own end. -/
theorem Capped.bounded_succ (h : Capped n .claimed attempts max) (hmax : 1 ≤ max) :
    ((n + 1 : Nat) : Int) ≤ max := by
  have hn := h.counted (Or.inr (Or.inr rfl))
  have hlt := h.below hmax (Or.inr rfl)
  omega

theorem Capped.fail (h : Capped n .claimed attempts max) :
    Capped (n + 1) .pending (attempts + 1) max := by
  refine ⟨?_, fun _ => ?_, h.bounded_succ⟩
  · rintro - (h | h) <;> cases h
  · have hn := h.counted (Or.inr (Or.inr rfl))
    omega

theorem Capped.defer (h : Capped n .claimed attempts max) : Capped n .pending attempts max := by
  refine ⟨?_, fun _ => h.counted (Or.inr (Or.inr rfl)), h.bounded⟩
  rintro - (h | h) <;> cases h

theorem capped_terminal (hs : status = .sent ∨ status = .deadLettered)
    (hb : 1 ≤ max → (n : Int) ≤ max) : Capped n status attempts max := by
  rcases hs with rfl | rfl
  · exact ⟨by simp, by simp, hb⟩
  · exact ⟨by simp, by simp, hb⟩

end

theorem capped_step (hsd : Sound s J) (hf : Fenced s J) (hc : Current s J)
    (hok : capGuard s a = true) (hstep : step cfg s a = some (t, es))
    (hcap : ∀ r, s.row J = some r → Capped (ended J h) r.status r.attemptCount r.maxAttempts) :
    ∀ r, t.row J = some r →
      Capped (ended J (es ++ h)) r.status r.attemptCount r.maxAttempts := by
  intro r' hr'
  rw [capGuard, Bool.and_eq_true] at hok
  obtain ⟨before, after, e, ls, hb, ha, he, -, hE⟩ := step_effect hstep J
  cases ha.symm.trans hr'
  cases hE with
  | stay =>
    rw [ended_none he]
    exact hcap r' hb
  | deliver =>
    rw [ended_one he rfl]
    exact hcap r' hb
  | @beat w r hcl =>
    have hr := hcap r hb
    rw [ended_none he]
    exact hr
  | create | replay =>
    rw [ended_restart he rfl]
    exact capped_zero _
  | @promote k env r hpc hJ hp =>
    have hr := hcap r hb
    have hlt := promotesBelowCap_row hok.2 hpc hJ hb
    rw [ended_one he rfl]
    exact ⟨fun hmax _ => hlt hmax, fun _ => hr.counted (Or.inl hp), hr.bounded⟩
  | @claim w env rest r hpc hq =>
    have hr := hcap r hb
    rw [ended_one he rfl]
    exact ⟨fun hmax _ => hr.below hmax (Or.inl hq), fun _ => hr.counted (Or.inr (Or.inl hq)),
      hr.bounded⟩
  | @send w env job r hpc hid hcl =>
    have hr := hcap r hb
    rw [ended_one he rfl]
    exact capped_terminal (Or.inl rfl) hr.bounded
  | @defer w env job r _ _ hpc hid hcl =>
    have hr := hcap r hb
    rw [hcl] at hr
    rw [ended_one he rfl]
    exact hr.defer
  | @retry w env job r error t hpc hid hx hcl hw hn =>
    have hr := hcap r hb
    have hatt := own_retry hf hc hsd.known hok.1 hpc hid hb hw hn
    rw [hcl, ← hatt] at hr
    rw [ended_one he rfl]
    exact hr.fail
  | @reclaim k env r hpc hJ hcl =>
    have hr := hcap r hb
    rw [hcl] at hr
    rw [ended_one he rfl]
    exact hr.fail
  | @giveUp w env job r error hpc hid hx hw =>
    have hr := hcap r hb
    obtain ⟨hcl, -, -⟩ := own_giveUp hf hc hsd.known hok.1 hpc hid hx hb hw
    rw [hcl] at hr he
    rw [ended_one he rfl]
    exact capped_terminal (Or.inr rfl) hr.bounded_succ
  | @bury k env row rest r hpc hid hw =>
    have hr := hcap r hb
    rw [ended_one he rfl]
    exact capped_terminal (Or.inr rfl) hr.bounded

theorem capGuard_own (s : State) (a : Action) (h : capGuard s a = true) :
    ownSnapshot s a = true := by
  rw [capGuard, Bool.and_eq_true] at h
  exact h.1

theorem run_capped (hr : Lts.Run (system cfg) capGuard h s) (J : JobId) :
    ∀ r, s.row J = some r → Capped (ended J h) r.status r.attemptCount r.maxAttempts := by
  refine run_rows (P := fun h _ r => Capped (ended J h) r.status r.attemptCount r.maxAttempts) hr
    (fun h s a t es hr ih hok hstep => ?_)
  exact capped_step (run_sound hr J) (run_fenced (hr.mono capGuard_own) J) (run_current hr J)
    hok hstep ih

/-- In the runs whose steps meet `ok`, a job at its cap is not claimed, and at
most `max_attempts` of its claims end in a failure or a reclaim before it is
done or replayed. -/
def CapHolds (cfg : Settings) (ok : State → Action → Bool) : Prop :=
  ∀ h s J r, Lts.Run (system cfg) ok h s → s.row J = some r → 1 ≤ r.maxAttempts →
    (ended J h : Int) ≤ r.maxAttempts ∧
    ∀ a t es w, ok s a = true → step cfg s a = some (t, es) → .claimed w J ∈ es →
      (r.attemptCount : Int) < r.maxAttempts

/-- **The attempt cap is a circuit breaker** in every run whose snapshots meet
`ownSnapshot` and whose promotions take no job at its cap. -/
theorem cap_holds (cfg : Settings) : CapHolds cfg capGuard := by
  intro h s J r hr hrow hmax
  have hcap := run_capped hr J r hrow
  refine ⟨hcap.bounded hmax, ?_⟩
  intro a t es w hok hstep hcl
  obtain ⟨r₀, -, hr₀, hq, -⟩ := row_of_claimed hstep hcl
  cases hrow.symm.trans hr₀
  exact hcap.below hmax (Or.inl hq)

/-- With one attempt a job: job `7` is claimed and reclaimed, and the scheduler
dies before it dead-letters it; the next one promotes it. -/
def crashedRecovery : List Action :=
  .createJob 7 plainJob :: promotion 0 7 ++ claim 1 ++
    [clock (61 * second), schedule 0 { batch := [7] }, .scheduler 0 .crash] ++ promotion 1 7 ++
    [work 2, work 2, work 2]

/-- Worker `2` claims job `7`, which has had its one attempt. -/
theorem not_cap_holds : ¬ CapHolds { maxAttempts := 1 } always := by
  intro hholds
  obtain ⟨s, h, hr, hf⟩ := Lts.run_of_replay (system { maxAttempts := 1 }) always crashedRecovery
    (fun p : State × List Event => ((p.1.row 7).map (fun r => (r.attemptCount, r.maxAttempts)),
      (step { maxAttempts := 1 } p.1 (work 2)).map (fun q : State × List Event =>
        decide (Event.claimed 2 7 ∈ q.2))))
    (some (1, 1), some true) initial_empty (by decide +kernel)
  obtain ⟨hrow, hstep⟩ := Prod.mk.inj hf
  obtain ⟨r, hr7, hcount⟩ := Option.map_eq_some_iff.mp hrow
  obtain ⟨hatt, hmax⟩ := Prod.mk.inj hcount
  obtain ⟨⟨t, es⟩, hstep, hcl⟩ := Option.map_eq_some_iff.mp hstep
  have hlt := (hholds h s 7 r hr hr7 (by omega)).2 (work 2) t es 2 rfl hstep
    (of_decide_eq_true hcl)
  omega

/-- Worker `1` claims job `7` for the first time. -/
theorem cap_holds_first : ∃ h s t es r, Lts.Run (system {}) capGuard h s ∧
    s.row 7 = some r ∧ step {} s (work 1) = some (t, es) ∧ .claimed 1 7 ∈ es ∧
    (ended 7 h : Int) ≤ r.maxAttempts ∧ (r.attemptCount : Int) < r.maxAttempts := by
  obtain ⟨s, h, hr, hf⟩ := Lts.run_of_replay (system {}) capGuard
    (.createJob 7 plainJob :: promotion 0 7 ++ [work 1, work 1, work 1])
    (fun p : State × List Event => (capGuard p.1 (work 1), (p.1.row 7).map Job.maxAttempts,
      (step {} p.1 (work 1)).map (fun q : State × List Event =>
        decide (Event.claimed 1 7 ∈ q.2))))
    (true, some 5, some true) initial_empty (by decide +kernel)
  obtain ⟨hok, hf⟩ := Prod.mk.inj hf
  obtain ⟨hrow, hstep⟩ := Prod.mk.inj hf
  obtain ⟨r, hr7, hmax⟩ := Option.map_eq_some_iff.mp hrow
  obtain ⟨⟨t, es⟩, hstep, hcl⟩ := Option.map_eq_some_iff.mp hstep
  have hmem := of_decide_eq_true hcl
  obtain ⟨hle, hlt⟩ := cap_holds {} h s 7 r hr hr7 (by omega)
  exact ⟨h, s, t, es, r, hr, hr7, hstep, hmem, hle, hlt (work 1) t es 1 hok hstep hmem⟩

/-! ### Counting on -/

/-- The row `r'` counts on from the row `r`, over a step with the row events `e`. -/
structure CountsOn (r r' : Job) (e : List Event) : Prop where
  cap : r'.maxAttempts = r.maxAttempts
  count : r'.attemptCount = r.attemptCount + e.countP Event.endsClaim
  single : e = [] ∨ ∃ x, e = [x] ∧ x.restarts = false
  kept : r.status = .deadLettered → r'.status = .deadLettered
  spent : r'.status = .deadLettered →
    r.status = .deadLettered ∨ r'.maxAttempts ≤ (r'.attemptCount : Int)

/-- What a step does to the count of `J`. -/
inductive Counted (s : State) (a : Action) (J : JobId) (r' : Job) (e : List Event) : Prop
  /-- It starts over. -/
  | restart {x : Event} : e = [x] → x.restarts = true → r'.attemptCount = 0 →
      r'.status = .pending → (s.row J = none ∨ x = .replayed J) → Counted s a J r' e
  | on {r : Job} : s.row J = some r → CountsOn r r' e → Counted s a J r' e
  /-- The `dead_letter` call of the recovery path sets it to what it has recovered. -/
  | buried {k : SchedulerId} {env : Env} {row : RecoveredRow} {rest : List RecoveredRow}
      {r : Job} {now : Time} : a = .scheduler k (.run env) → s.schedulers k = .burying row rest →
      row.id = J → s.row J = some r → r.workerId = none →
      r' = (markDeadLettered now row.errorMessage J row.attemptCount none).set r →
      e = [.deadLettered none (some r.status) J] → Counted s a J r' e

/-- **What a step adds to `attempt_count`**: one for a claim it ends by failure
or reclaim, nothing otherwise, unless it starts the count over or is a `dead_letter`
call of the recovery path. -/
theorem count_step (hsd : Sound s J) (hf : Fenced s J) (hc : Current s J)
    (hok : ownSnapshot s a = true) (hstep : step cfg s a = some (t, es)) {r' : Job}
    (hr' : t.row J = some r') : Counted s a J r' (jobEvents J es) := by
  obtain ⟨before, after, e, ls, hb, ha, he, -, hE⟩ := step_effect hstep J
  cases ha.symm.trans hr'
  rw [he]
  have hlive : ∀ {r : Job} {status : JobStatus}, r.status = status → status ≠ .deadLettered →
      r.status = .deadLettered → r'.status = .deadLettered := by
    intro r status hst hne hd
    exact absurd (hst.symm.trans hd) hne
  cases hE with
  | create => exact .restart rfl rfl rfl rfl (Or.inl hb)
  | replay => exact .restart rfl rfl rfl rfl (Or.inr rfl)
  | stay => exact .on hb ⟨rfl, rfl, Or.inl rfl, id, Or.inl⟩
  | deliver => exact .on hb ⟨rfl, rfl, Or.inr ⟨_, rfl, rfl⟩, id, Or.inl⟩
  | @beat w r hcl => exact .on hb ⟨rfl, rfl, Or.inl rfl, id, Or.inl⟩
  | promote _ _ h | claim _ h | send _ _ h | defer _ _ h | reclaim _ _ h =>
    exact .on hb ⟨rfl, rfl, Or.inr ⟨_, rfl, rfl⟩, hlive h (by decide), fun h => by cases h⟩
  | @retry w env job r error t hpc hid hx hcl hw hn =>
    have hatt := own_retry hf hc hsd.known hok hpc hid hb hw hn
    refine .on hb ⟨rfl, ?_, Or.inr ⟨_, rfl, rfl⟩, hlive hcl (by decide), fun h => by cases h⟩
    show job.attemptCount + 1 = r.attemptCount + 1
    rw [hatt]
  | @giveUp w env job r error hpc hid hx hw =>
    obtain ⟨hcl, hatt, hmax⟩ := own_giveUp hf hc hsd.known hok hpc hid hx hb hw
    refine .on hb ⟨rfl, ?_, Or.inr ⟨_, rfl, rfl⟩, fun _ => rfl, fun _ => Or.inr ?_⟩
    · rw [hcl]
      show job.attemptCount + 1 = r.attemptCount + 1
      rw [hatt]
    · rw [exhausted, hmax] at hx
      exact of_decide_eq_true hx
  | @bury k env row rest r hpc hid hw => exact .buried rfl hpc hid hb hw rfl rfl

theorem ended_append (hs : jobEvents J es = [] ∨ ∃ x, jobEvents J es = [x] ∧ x.restarts = false)
    (h : List Event) :
    ended J (es ++ h) = ended J h + (jobEvents J es).countP Event.endsClaim := by
  rcases hs with he | ⟨x, he, hx⟩
  · rw [ended_none he, he]
    rfl
  · rw [ended_one he hx, he, List.countP_singleton]

/-! ### No early dead letters -/

/-- When the recovery path issues its `dead_letter` call, the row it would hit is at
its cap, or was dead-lettered before. -/
def spentRecovery (s : State) : Action → Bool
  | .scheduler k (.run _) =>
    match s.schedulers k with
    | .burying row _ => (s.row row.id).all (fun r => r.workerId.isSome ||
        decide (r.status = .deadLettered) || decide (r.maxAttempts ≤ (r.attemptCount : Int)))
    | _ => true
  | _ => true

/-- The condition under which dead letters are earned. -/
def earnedGuard (s : State) (a : Action) : Bool := ownSnapshot s a && spentRecovery s a

theorem earnedGuard_own (s : State) (a : Action) (h : earnedGuard s a = true) :
    ownSnapshot s a = true := by
  rw [earnedGuard, Bool.and_eq_true] at h
  exact h.1

theorem spentRecovery_row {k : SchedulerId} {env : Env} {row : RecoveredRow}
    {rest : List RecoveredRow} {r : Job}
    (hok : spentRecovery s (.scheduler k (.run env)) = true)
    (hpc : s.schedulers k = .burying row rest) (hr : s.row row.id = some r)
    (hw : r.workerId = none) :
    r.status = .deadLettered ∨ r.maxAttempts ≤ (r.attemptCount : Int) := by
  rw [spentRecovery, hpc] at hok
  simpa [hr, hw] using hok

/-- `attempt_count` is the number of ended claims, until the job is dead-lettered,
and that takes as many as the cap allows. -/
structure Earned (n : Nat) (r : Job) : Prop where
  count : r.status ≠ .deadLettered → n = r.attemptCount
  spent : r.status = .deadLettered → r.maxAttempts ≤ (n : Int)

theorem Earned.countsOn {n : Nat} {r r' : Job} {e : List Event} (h : Earned n r)
    (hon : CountsOn r r' e) : Earned (n + e.countP Event.endsClaim) r' := by
  have hcount := hon.count
  by_cases hd : r.status = .deadLettered
  · have hle := h.spent hd
    refine ⟨fun hne => absurd (hon.kept hd) hne, fun _ => ?_⟩
    rw [hon.cap]
    omega
  · have hn := h.count hd
    refine ⟨fun _ => by omega, fun hd' => ?_⟩
    rcases hon.spent hd' with hd' | hle
    · exact absurd hd' hd
    · omega

theorem earned_step (hsd : Sound s J) (hf : Fenced s J) (hc : Current s J)
    (hok : earnedGuard s a = true) (hstep : step cfg s a = some (t, es))
    (hea : ∀ r, s.row J = some r → Earned (ended J h) r) :
    ∀ r, t.row J = some r → Earned (ended J (es ++ h)) r := by
  intro r' hr'
  rw [earnedGuard, Bool.and_eq_true] at hok
  cases count_step hsd hf hc hok.1 hstep hr' with
  | restart he hx hzero hp =>
    refine ⟨fun _ => ?_, fun hd => ?_⟩
    · rw [ended_restart he hx, hzero]
    · cases hp.symm.trans hd
  | on hr hon =>
    rw [ended_append hon.single]
    exact (hea _ hr).countsOn hon
  | @buried k env row rest r now ha hpc hid hr hw hset he =>
    subst ha hid hset
    rw [ended_one he rfl]
    refine ⟨fun hne => absurd rfl hne, fun _ => ?_⟩
    have hr₀ := hea r hr
    by_cases hd : r.status = .deadLettered
    · exact hr₀.spent hd
    · have hle := (spentRecovery_row hok.2 hpc hr hw).resolve_left hd
      rw [← hr₀.count hd] at hle
      exact hle

theorem run_earned (hr : Lts.Run (system cfg) earnedGuard h s) (J : JobId) :
    ∀ r, s.row J = some r → Earned (ended J h) r := by
  refine run_rows (P := fun h _ r => Earned (ended J h) r) hr
    (fun h s a t es hr ih hok hstep => ?_)
  exact earned_step (run_sound hr J) (run_fenced (hr.mono earnedGuard_own) J)
    (run_current hr J) hok hstep ih

/-- In the runs whose steps meet `ok`, a dead-lettered job has had as many
claims ended by failure or reclaim as it has attempts. -/
def DeadLettersEarned (cfg : Settings) (ok : State → Action → Bool) : Prop :=
  ∀ h s J r, Lts.Run (system cfg) ok h s → s.row J = some r → r.status = .deadLettered →
    1 ≤ r.maxAttempts → r.maxAttempts ≤ ended J h

/-- **No premature dead-lettering** in every run whose snapshots meet `ownSnapshot` and
whose recovery path dead-letters only what is at its cap or dead-lettered already. -/
theorem dead_letters_earned (cfg : Settings) : DeadLettersEarned cfg earnedGuard := by
  intro h s J r hr hrow hd _
  exact (run_earned hr J r hrow).spent hd

/-- With one attempt a job: a scheduler reclaims job `7` and pauses before its
`dead_letter` call; the job is promoted by another, fails at worker `2`, is
dead-lettered and replayed; then the first scheduler goes on. -/
def staleRecovery : List Action :=
  .createJob 7 plainJob :: promotion 0 7 ++ claim 1 ++
    [clock (61 * second), schedule 0 { batch := [7] }, schedule 0] ++ promotion 1 7 ++
    claim 2 ++ [work 2, work 2, work 2, work 2, .retryJob 7, schedule 0]

/-- Job `7` is dead-lettered before any claim since its replay. -/
theorem not_dead_letters_earned : ¬ DeadLettersEarned { maxAttempts := 1 } always := by
  intro hearned
  obtain ⟨s, h, hr, hf⟩ := Lts.run_of_replay (system { maxAttempts := 1 }) always staleRecovery
    (fun p : State × List Event =>
      ((p.1.row 7).map (fun r => (r.status, r.maxAttempts)), ended 7 p.2))
    (some (.deadLettered, 1), 0) initial_empty (by decide +kernel)
  obtain ⟨hrow, hended⟩ := Prod.mk.inj hf
  obtain ⟨r, hr7, hst⟩ := Option.map_eq_some_iff.mp hrow
  obtain ⟨hd, hmax⟩ := Prod.mk.inj hst
  have hle := hearned h s 7 r hr hr7 hd (by omega)
  dsimp only at hended
  omega

/-- Job `7` has one attempt, which fails. -/
theorem dead_letters_earned_failure : ∃ h s r,
    Lts.Run (system { maxAttempts := 1 }) earnedGuard h s ∧ s.row 7 = some r ∧
    r.status = .deadLettered ∧ r.maxAttempts ≤ ended 7 h := by
  obtain ⟨s, h, hr, hf⟩ := Lts.run_of_replay (system { maxAttempts := 1 }) earnedGuard
    (.createJob 7 plainJob :: promotion 0 7 ++ claim 1 ++ [work 1, work 1, work 1, work 1])
    (fun p : State × List Event => (p.1.row 7).map (fun r => (r.status, r.maxAttempts)))
    (some (.deadLettered, 1)) initial_empty (by decide +kernel)
  obtain ⟨r, hr7, hst⟩ := Option.map_eq_some_iff.mp hf
  obtain ⟨hd, hmax⟩ := Prod.mk.inj hst
  exact ⟨h, s, r, hr, hr7, hd, dead_letters_earned _ h s 7 r hr hr7 hd (by omega)⟩

/-! ### Exact counting -/

/-- When the recovery path issues its `dead_letter` call, the row it would hit
has the count that `RECOVER_STALE_CLAIMED` returned. -/
def freshRecovery (s : State) : Action → Bool
  | .scheduler k (.run _) =>
    match s.schedulers k with
    | .burying row _ => (s.row row.id).all (fun r =>
        r.workerId.isSome || decide (r.attemptCount = row.attemptCount))
    | _ => true
  | _ => true

/-- The condition under which `attempt_count` is exact. -/
def countGuard (s : State) (a : Action) : Bool := ownSnapshot s a && freshRecovery s a

theorem countGuard_own (s : State) (a : Action) (h : countGuard s a = true) :
    ownSnapshot s a = true := by
  rw [countGuard, Bool.and_eq_true] at h
  exact h.1

theorem freshRecovery_row {k : SchedulerId} {env : Env} {row : RecoveredRow}
    {rest : List RecoveredRow} {r : Job}
    (hok : freshRecovery s (.scheduler k (.run env)) = true)
    (hpc : s.schedulers k = .burying row rest) (hr : s.row row.id = some r)
    (hw : r.workerId = none) : r.attemptCount = row.attemptCount := by
  rw [freshRecovery, hpc] at hok
  simp only [hr, Option.all_some, hw, Option.isSome_none, Bool.false_or] at hok
  exact of_decide_eq_true hok

/-- In the runs whose steps meet `ok`, a step other than a replay adds to
`attempt_count` exactly the claims it ends by failure or reclaim, one at most. -/
def AttemptsCounted (cfg : Settings) (ok : State → Action → Bool) : Prop :=
  ∀ h s a t es J r, Lts.Run (system cfg) ok h s → ok s a = true →
    step cfg s a = some (t, es) → s.row J = some r → .replayed J ∉ es →
    (jobEvents J es).countP Event.endsClaim ≤ 1 ∧
    ∃ r', t.row J = some r' ∧
      r'.attemptCount = r.attemptCount + (jobEvents J es).countP Event.endsClaim

/-- **`attempt_count` is never lost or rewound** in every run whose snapshots
and recovered rows are current when they are used. -/
theorem attempts_counted (cfg : Settings) : AttemptsCounted cfg countGuard := by
  intro h s a t es J r hr hok hstep hrow hno
  obtain ⟨r', hr', -⟩ := row_fixed hstep hrow
  have hown := countGuard_own s a hok
  rw [countGuard, Bool.and_eq_true] at hok
  cases count_step (run_sound hr J) (run_fenced (hr.mono countGuard_own) J)
    (run_current hr J) hown hstep hr' with
  | restart he _ _ _ hnew =>
    rcases hnew with hnone | rfl
    · cases hnone.symm.trans hrow
    · have hmem : .replayed J ∈ jobEvents J es := by rw [he]; exact List.mem_singleton_self _
      exact absurd (mem_jobEvents.mp hmem).1 hno
  | on hr₀ hon =>
    cases hrow.symm.trans hr₀
    refine ⟨?_, r', hr', hon.count⟩
    rcases hon.single with he | ⟨x, he, -⟩
    · rw [he]
      exact Nat.zero_le 1
    · rw [he]
      exact List.countP_le_length
  | @buried k env row rest r₀ now ha hpc hid hr₀ hw hset he =>
    cases hrow.symm.trans hr₀
    subst ha hid hset
    rw [he]
    exact ⟨Nat.zero_le 1, _, hr', (freshRecovery_row hok.2 hpc hrow hw).symm⟩

/-- Worker `1` holds worker `2`'s row of job `7`; the job is reclaimed from
worker `2` and claimed by it again; then worker `1` fails. -/
def lateRetry : List Action :=
  lateFetch ++ [.worker 2 (.raise .begun), work 2, clock (120 * second),
    schedule 0 { batch := [7] }, schedule 0, schedule 0, schedule 0] ++ promotion 0 7 ++
    claim 2 ++ [work 1]

/-- Worker `1` ends a claim of job `7` and `attempt_count` stays at `2`: the
reclaim in between is lost. -/
theorem not_attempts_counted : ¬ AttemptsCounted {} always := by
  intro hcounted
  obtain ⟨s, h, hr, hf⟩ := Lts.run_of_replay (system {}) always lateRetry
    (fun p : State × List Event => ((p.1.row 7).map Job.attemptCount,
      (step {} p.1 (work 1)).map (fun q : State × List Event =>
        ((q.1.row 7).map Job.attemptCount, q.2))))
    (some 2, some (some 2, [.retried 1 7])) initial_empty (by decide +kernel)
  obtain ⟨hrow, hstep⟩ := Prod.mk.inj hf
  obtain ⟨r, hr7, hatt⟩ := Option.map_eq_some_iff.mp hrow
  obtain ⟨⟨t, es⟩, hstep, hq⟩ := Option.map_eq_some_iff.mp hstep
  obtain ⟨hrow', hes⟩ := Prod.mk.inj hq
  dsimp only at hes
  subst hes
  obtain ⟨-, r', hr7', hcount⟩ := hcounted h s (work 1) t _ 7 r hr rfl hstep hr7 (by decide)
  have hone : (jobEvents 7 [.retried 1 7]).countP Event.endsClaim = 1 := by decide
  simp only [hr7', Option.map_some, Option.some.injEq] at hrow'
  omega

/-- Worker `1` fails its first attempt at job `7`. -/
theorem attempts_counted_failure : ∃ h s t es r r', Lts.Run (system {}) countGuard h s ∧
    step {} s (work 1) = some (t, es) ∧ s.row 7 = some r ∧ t.row 7 = some r' ∧
    r'.attemptCount = r.attemptCount + (jobEvents 7 es).countP Event.endsClaim := by
  obtain ⟨s, h, hr, hf⟩ := Lts.run_of_replay (system {}) countGuard
    (.createJob 7 plainJob :: promotion 0 7 ++ claim 1 ++ [work 1, work 1, work 1])
    (fun p : State × List Event => (countGuard p.1 (work 1), (p.1.row 7).isSome,
      (step {} p.1 (work 1)).map Prod.snd))
    (true, true, some [.retried 1 7]) initial_empty (by decide +kernel)
  obtain ⟨hok, hf⟩ := Prod.mk.inj hf
  obtain ⟨hrow, hstep⟩ := Prod.mk.inj hf
  obtain ⟨r, hr7⟩ := Option.isSome_iff_exists.mp hrow
  obtain ⟨⟨t, es⟩, hstep, hes⟩ := Option.map_eq_some_iff.mp hstep
  obtain rfl : es = [.retried 1 7] := hes
  obtain ⟨-, r', hr7', hcount⟩ :=
    attempts_counted {} h s (work 1) t _ 7 r hr hok hstep hr7 (by decide)
  exact ⟨h, s, t, _, r, r', hr, hstep, hr7, hr7', hcount⟩

end NotifyQueue
