import NotifyQueue.Job.Copies

/-!
# The ownership fence

Every outcome write compares `worker_id` with the `worker_id` of the snapshot
it is issued from.  The snapshot is read by `FETCH_JOB`, some time after the
claim.  If the job was reclaimed and claimed again in between, the snapshot
carries the other worker's id and the write passes the fence on the other
worker's row.

`ownSnapshot` is the condition that a snapshot carries the id of the worker
that uses it, or no id where the fence is an `=`, which `NULL` never passes.
`Fenced` is the invariant of the runs that meet it: a worker
with a stake in a job that the row says it owns finds the row claimed.  From it
follow the fence and, since nothing but an outcome write can touch a sent row,
that a sent job stays as it is.  Without the condition both fail.
-/

namespace NotifyQueue

open KeyedTable

/-- The outcome write is the transaction of `MARK_DEAD_LETTERED`. -/
def WorkerPc.givesUp : WorkerPc → Bool
  | .failing job _ => exhausted job
  | _ => false

/-- An outcome write is issued from a snapshot that carries the worker's own id, or,
unless it is `MARK_DEAD_LETTERED`, from one without an owner. -/
def ownSnapshot (s : State) (a : Action) : Bool :=
  match outcome? s a with
  | some (w, job) => decide (job.workerId = some w) ||
      (job.workerId.isNone && !(s.workers w).pc.givesUp)
  | none => true

variable {cfg : Settings} {s t : State} {a : Action} {es h : List Event} {J : JobId}

theorem ownSnapshot_outcome {w : WorkerId} {job : Job} (hok : ownSnapshot s a = true)
    (ho : outcome? s a = some (w, job))
    (hn : (s.workers w).pc.givesUp = false → job.workerId ≠ none) : job.workerId = some w := by
  rw [ownSnapshot, ho] at hok
  simp only [Bool.or_eq_true, decide_eq_true_eq, Bool.and_eq_true, Option.isNone_iff_eq_none,
    Bool.not_eq_true'] at hok
  rcases hok with hown | ⟨hnone, hg⟩
  · exact hown
  · exact absurd hnone (hn hg)

theorem ownSnapshot_givesUp {w : WorkerId} {job : Job} {error : String}
    (hok : ownSnapshot s a = true) (ho : outcome? s a = some (w, job))
    (hpc : (s.workers w).pc = .failing job error) (hx : exhausted job = true) :
    job.workerId = some w := by
  refine ownSnapshot_outcome hok ho (fun hg => ?_)
  rw [hpc, WorkerPc.givesUp, hx] at hg
  cases hg

theorem outcome_of_pc {w : WorkerId} (env : Env) {job : Job}
    (h : (s.workers w).pc.outcome? = some job) :
    outcome? s (.worker w (.run env)) = some (w, job) := by
  rw [outcome?, h]
  rfl

/-! ### What an outcome write does -/

/-- The two ways an outcome write can end. -/
inductive OutcomeResult (s t : State) (es : List Event) (w : WorkerId) (job : Job) : Prop
  | lost : t.db = s.db → es = [.lost w job.id] →
      (∀ r, s.row job.id = some r → r.workerId = job.workerId → r.workerId ≠ none →
        r.status ≠ .claimed) → OutcomeResult s t es w job
  | matched {r : Job} {e : Event} : s.row job.id = some r → r.workerId = job.workerId →
      ((s.workers w).pc.givesUp = false → r.workerId ≠ none) →
      es = [e] → e.job? = some job.id → OutcomeResult s t es w job

theorem WorkerAwait.outcome {w : WorkerId} {env : Env} {job : Job} {sh : Shared}
    {pc pc' : WorkerPc} (h : WorkerAwait cfg w env s.toShared pc sh pc' es)
    (hpc : (s.workers w).pc = pc) (ho : pc.outcome? = some job) (ht : t.db = sh.db) :
    OutcomeResult s t es w job := by
  cases h with
  | settle hu hf =>
    cases ho.symm.trans hu.job_eq.1
    obtain ⟨r, hr, ha, -⟩ := row_of_fetchrow (fun r hr => (hu.applies_iff.mp hr).1) hf
    obtain ⟨-, ⟨hw, hn⟩, -⟩ := hu.applies_iff.mp ha
    exact .matched hr hw (fun _ => hn) rfl hu.job_eq.2
  | lose hu hf =>
    cases ho.symm.trans hu.job_eq.1
    refine .lost ht rfl (fun r hr hw hn hc => ?_)
    have hna := not_applies_of_fetchrow hf hr
    rw [hu.applies_iff.mpr ⟨Table.key_of_find? hr, ⟨hw, hn⟩, hc⟩] at hna
    cases hna
  | bury hx htxn =>
    cases ho
    obtain ⟨marked, hm, -⟩ := deadLetterTxn_committed htxn
    obtain ⟨r, hr, ha, -⟩ := row_of_fetchrow (fun r hr => (marks_iff.mp hr).1) hm
    refine .matched hr (marks_iff.mp ha).2 (fun hg => ?_) rfl rfl
    rw [hpc, WorkerPc.givesUp, hx] at hg
    cases hg
  | @loseLast _ error _ hnc =>
    cases ho
    refine .lost ht rfl (fun r hr hw _ _ => ?_)
    rcases deadLetterTxn_complete s.db job.letterFields (some error)
      (job.attemptCount + 1) job.workerId with ⟨hf, -⟩ | ⟨db, hdb⟩
    · have hna := not_applies_of_fetchrow hf hr
      cases hna.symm.trans (marks_iff.mpr ⟨Table.key_of_find? hr, hw⟩)
    · exact absurd (congrArg Prod.snd hdb) hnc
  | _ => cases ho

/-- **An outcome write matches the row or changes nothing.** -/
theorem outcome_result (hstep : step cfg s a = some (t, es)) {w : WorkerId} {job : Job}
    (ho : outcome? s a = some (w, job)) : OutcomeResult s t es w job := by
  obtain ⟨env, rfl, hpc⟩ := run_of_outcome? ho
  exact (worker_await (worker_run hstep)).outcome rfl hpc rfl

/-! ### The invariant -/

/-- A worker with a stake in `J` that the row names as the owner finds `J` claimed. -/
def Fenced (s : State) (J : JobId) : Prop :=
  ∀ w x r, s.stake w = some ⟨J, x⟩ → s.row J = some r → r.workerId = some w →
    r.status = .claimed

theorem fenced_init (hi : Initial s) (J : JobId) : Fenced s J := by
  intro w x r hst
  rw [stake_initial hi] at hst
  cases hst

theorem fenced_step (hsd : Sound s J) (hok : ownSnapshot s a = true)
    (hstep : step cfg s a = some (t, es)) (hf : Fenced s J) : Fenced t J := by
  intro w x r' hst hr' hw
  obtain ⟨before, after, e, ls, hb, ha, he, -, hE⟩ := step_effect hstep J
  cases ha.symm.trans hr'
  rcases stake_step hstep hst with ⟨hkept, hno⟩ | ⟨-, -, hev⟩ | ⟨hkept, -, -, hdb, -⟩
  · cases hE with
    | stay | deliver => exact hf w x r' hkept hb hw
    | claim => rfl
    | beat hc => exact hc
    | promote _ _ hp =>
      have hnone := (hsd.owned _ hb).workerId_eq_none (by rw [hp]; decide) (by rw [hp]; decide)
      cases hnone.symm.trans hw
    | @send v env job r hpc hid hc hwj hn =>
      -- the writer is the owner, so it is `w`, whose stake ends with the write
      have ho : outcome? s (.worker v (.run env)) = some (v, job) :=
        outcome_of_pc env (by rw [hpc]; rfl)
      have hv := ownSnapshot_outcome hok ho (fun _ => hwj ▸ hn)
      cases (hw.symm.trans hwj).trans hv
      exact absurd ho (hno job)
    | create | retry | defer | giveUp | bury | reclaim | replay => cases hw
  · have hev' : e = [.claimed w J] := he.symm.trans hev
    cases hE <;> cases hev'
    rfl
  · have hrow : s.row J = some r' := by
      rw [← hr', State.row, State.row, hdb]
    exact hf w none r' hkept hrow hw

theorem run_fenced (hr : Lts.Run (system cfg) ownSnapshot h s) (J : JobId) : Fenced s J :=
  hr.invariant (I := fun _ s => Fenced s J) (fun _ hi => fenced_init hi J)
    (fun _ _ _ _ _ hr hf hok hstep => fenced_step (run_sound hr J) hok hstep hf)

/-! ### The fence -/

/-- In the runs whose steps meet `ok`, an outcome write that changes anything
finds its job claimed by the worker that issues it. -/
def OutcomesFenced (cfg : Settings) (ok : State → Action → Bool) : Prop :=
  ∀ h s a t es w job, Lts.Run (system cfg) ok h s → ok s a = true →
    step cfg s a = some (t, es) → outcome? s a = some (w, job) → t.db ≠ s.db →
    ∃ r, s.row job.id = some r ∧ r.status = .claimed ∧ r.workerId = some w

/-- **Outcome writes are fenced on ownership** in every run whose snapshots carry the
id of the worker that uses them, or none where the fence does not let it pass. -/
theorem outcomes_fenced (cfg : Settings) : OutcomesFenced cfg ownSnapshot := by
  intro h s a t es w job hr hok hstep ho hne
  cases outcome_result hstep ho with
  | lost hdb => exact absurd hdb hne
  | @matched r e hrow hw hn =>
    have hown := ownSnapshot_outcome hok ho (fun hg => hw ▸ hn hg)
    refine ⟨r, hrow, ?_, hw.trans hown⟩
    exact run_fenced hr job.id w _ r (stake_of_outcome? ho) hrow (hw.trans hown)

theorem db_ne_of_row {β : Type*} {f : Job → β} {x y : β} (hx : (s.row J).map f = some x)
    (hy : (t.row J).map f = some y) (hne : x ≠ y) : t.db ≠ s.db := by
  intro hdb
  rw [State.row, hdb] at hy
  exact hne (Option.some.inj (hx.symm.trans hy))

/-- Worker `1` claims job `7` and stalls before `FETCH_JOB`; the job is
reclaimed, promoted and claimed by worker `2`; then worker `1` goes on. -/
def lateFetch : List Action :=
  .createJob 7 plainJob :: promotion 0 7 ++ claim 1 ++ clock (61 * second) ::
    schedule 0 { batch := [7] } :: schedule 0 :: schedule 0 :: schedule 0 ::
    promotion 0 7 ++ claim 2 ++ [work 1, work 1]

/-- Worker `1` sends job `7` from worker `2`'s row. -/
theorem not_outcomes_fenced : ¬ OutcomesFenced {} always := by
  intro hfenced
  obtain ⟨s, h, hr, hf⟩ := Lts.run_of_replay (system {}) always
    (lateFetch ++ [work 1 { random := 1 / 2 }])
    (fun p => ((outcome? p.1 (work 1)).map (fun o => (o.1, o.2.id)),
      (p.1.row 7).map (fun r => (r.status, r.workerId)),
      (step {} p.1 (work 1)).bind (fun q => (q.1.row 7).map (fun r => (r.status, r.workerId)))))
    (some (1, 7), some (.claimed, some 2), some (.sent, some 2)) initial_empty
    (by decide +kernel)
  obtain ⟨ho, hf⟩ := Prod.mk.inj hf
  obtain ⟨hrow, hstep⟩ := Prod.mk.inj hf
  obtain ⟨⟨w, job⟩, ho, hwj⟩ := Option.map_eq_some_iff.mp ho
  obtain ⟨rfl, hid⟩ := Prod.mk.inj hwj
  obtain ⟨⟨t, es⟩, hstep, hrow'⟩ := Option.bind_eq_some_iff.mp hstep
  have hne : t.db ≠ s.db := db_ne_of_row hrow hrow' (by decide)
  obtain ⟨r, hr7, -, hw⟩ := hfenced h s (work 1) t es 1 job hr rfl hstep ho hne
  rw [hid] at hr7
  simp [hr7, hw] at hrow

/-- Worker `1` claims job `7`, fetches its own row and sends it. -/
theorem outcomes_fenced_delivery : ∃ h s t es job,
    Lts.Run (system {}) ownSnapshot h s ∧ step {} s (work 1) = some (t, es) ∧
    outcome? s (work 1) = some (1, job) ∧ t.db ≠ s.db ∧
    ∃ r, s.row job.id = some r ∧ r.status = .claimed ∧ r.workerId = some 1 := by
  obtain ⟨s, h, hr, hf⟩ := Lts.run_of_replay (system {}) ownSnapshot
    (.createJob 7 plainJob :: promotion 0 7 ++ claim 1 ++
      [work 1, work 1, work 1 { random := 1 / 2 }])
    (fun p => (ownSnapshot p.1 (work 1), (outcome? p.1 (work 1)).map Prod.fst,
      (p.1.row 7).map Job.status,
      (step {} p.1 (work 1)).bind (fun q => (q.1.row 7).map Job.status)))
    (true, some 1, some .claimed, some .sent) initial_empty (by decide +kernel)
  obtain ⟨hok, hf⟩ := Prod.mk.inj hf
  obtain ⟨ho, hf⟩ := Prod.mk.inj hf
  obtain ⟨hrow, hstep⟩ := Prod.mk.inj hf
  obtain ⟨⟨w, job⟩, ho, hw⟩ := Option.map_eq_some_iff.mp ho
  obtain rfl : w = 1 := hw
  obtain ⟨⟨t, es⟩, hstep, hrow'⟩ := Option.bind_eq_some_iff.mp hstep
  have hne : t.db ≠ s.db := db_ne_of_row hrow hrow' (by decide)
  exact ⟨h, s, t, es, job, hr, hstep, ho, hne,
    outcomes_fenced {} h s (work 1) t es 1 job hr hok hstep ho hne⟩

/-! ### Sent jobs -/

/-- **Nothing touches a sent row.** -/
theorem sent_step (hsd : Sound s J) (hf : Fenced s J) (hok : ownSnapshot s a = true)
    (hstep : step cfg s a = some (t, es)) {r : Job} (hr : s.row J = some r)
    (hs : r.status = .sent) : t.row J = some r ∧ t.letters J = s.letters J := by
  obtain ⟨before, after, e, ls, hb, ha, -, hl, hE⟩ := step_effect hstep J
  cases hb.symm.trans hr
  have hnot : ∀ {status : JobStatus}, r.status = status → status = .sent := by
    intro status h
    rw [← h, hs]
  cases hE with
  | stay | deliver => exact ⟨ha, hl.trans (List.append_nil _)⟩
  | promote _ _ hp => cases hnot hp
  | claim _ hq => cases hnot hq
  | beat hc => cases hnot hc
  | send _ _ hc => cases hnot hc
  | retry _ _ _ hc => cases hnot hc
  | defer _ _ hc => cases hnot hc
  | reclaim _ _ hc => cases hnot hc
  | replay hd => cases hnot hd
  | @giveUp w env job r error hpc hid hx hwj =>
    have ho : outcome? s (.worker w (.run env)) = some (w, job) :=
      outcome_of_pc env (by rw [hpc]; rfl)
    have hst : s.stake w = some ⟨J, some job⟩ := hid ▸ stake_of_outcome? ho
    cases hnot (hf w _ r hst hb (hwj.trans (ownSnapshot_givesUp hok ho hpc hx)))
  | bury _ _ hw => exact absurd hs ((hsd.owned _ hb).not_active hw).2

/-- In the runs whose steps meet `ok`, a sent job stays sent and gets no letter. -/
def SentIsFinal (cfg : Settings) (ok : State → Action → Bool) : Prop :=
  ∀ h s k t J r, Lts.Run (system cfg) ok h s → Lts.Path (system cfg) ok s k t →
    s.row J = some r → r.status = .sent →
    ∃ r', t.row J = some r' ∧ r'.status = .sent ∧ r'.sentAt = r.sentAt ∧
      r'.attemptCount = r.attemptCount ∧ r'.errorMessage = r.errorMessage ∧
      t.letters J = s.letters J

/-- **A sent job stays sent** in every run whose snapshots carry the id of the worker
that uses them, or none where the fence does not let it pass. -/
theorem sent_is_final (cfg : Settings) : SentIsFinal cfg ownSnapshot := by
  intro h s k t J r hr hp hrow hs
  have hkeep : t.row J = some r ∧ t.letters J = s.letters J := by
    refine hp.stable (Q := fun u => u.row J = some r ∧ u.letters J = s.letters J) ?_ hr
      ⟨hrow, rfl⟩
    intro h' u a v es hr' hu hok hstep
    obtain ⟨hv, hl⟩ := sent_step (run_sound hr' J) (run_fenced hr' J) hok hstep hu.1 hs
    exact ⟨hv, hl.trans hu.2⟩
  exact ⟨r, hkeep.1, hs, rfl, rfl, rfl, hkeep.2⟩

/-- With two attempts a job: worker `2` sends job `7`, whose row worker `1` has
read and is about to fail for the last time. -/
def lateFailure : List Action :=
  lateFetch ++ [work 1, work 2, work 2, work 2 { random := 1 / 2 }, work 2]

/-- Worker `1` dead-letters the sent job `7`. -/
theorem not_sent_is_final : ¬ SentIsFinal { maxAttempts := 2 } always := by
  intro hfinal
  obtain ⟨s, h, hr, hf⟩ := Lts.run_of_replay (system { maxAttempts := 2 }) always lateFailure
    (fun p => ((p.1.row 7).map Job.status,
      (step { maxAttempts := 2 } p.1 (work 1)).bind (fun q => (q.1.row 7).map Job.status)))
    (some .sent, some .deadLettered) initial_empty (by decide +kernel)
  obtain ⟨hrow, hstep⟩ := Prod.mk.inj hf
  obtain ⟨r, hr7, hs⟩ := Option.map_eq_some_iff.mp hrow
  obtain ⟨⟨t, es⟩, hstep, hrow'⟩ := Option.bind_eq_some_iff.mp hstep
  have hp : Lts.Path (system { maxAttempts := 2 }) always s es t := .single (a := work 1) rfl hstep
  obtain ⟨r', hr7', hs', -⟩ := hfinal h s es t 7 r hr hp hr7 hs
  simp [hr7', hs'] at hrow'

/-- Worker `1` sends job `7`; the scheduler's next tick leaves it alone. -/
theorem sent_is_final_delivery : ∃ h s k t r,
    Lts.Run (system {}) ownSnapshot h s ∧ Lts.Path (system {}) ownSnapshot s k t ∧
    s.row 7 = some r ∧ r.status = .sent ∧ ∃ r', t.row 7 = some r' ∧ r'.status = .sent := by
  obtain ⟨s, h, hr, hf⟩ := Lts.run_of_replay (system {}) ownSnapshot
    (.createJob 7 plainJob :: promotion 0 7 ++ claim 1 ++
      [work 1, work 1, work 1 { random := 1 / 2 }, work 1])
    (fun p => ((p.1.row 7).map Job.status, (step {} p.1 (schedule 0)).isSome))
    (some .sent, true) initial_empty (by decide +kernel)
  obtain ⟨hrow, hstep⟩ := Prod.mk.inj hf
  obtain ⟨r, hr7, hs⟩ := Option.map_eq_some_iff.mp hrow
  obtain ⟨⟨t, es⟩, hstep⟩ := Option.isSome_iff_exists.mp hstep
  have hp : Lts.Path (system {}) ownSnapshot s es t := .single (a := schedule 0) rfl hstep
  obtain ⟨r', hr7', hs', -⟩ := sent_is_final {} h s es t 7 r hr hp hr7 hs
  exact ⟨h, s, es, t, r, hr, hp, hr7, hs, r', hr7', hs'⟩

end NotifyQueue
