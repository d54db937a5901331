import NotifyQueue.Safety.Fence

/-!
# Exactly once, as long as nobody times out

In the runs in which `RECOVER_STALE_CLAIMED` never selects a job `J`, the only
way out of `claimed` is the outcome write of the worker that claimed it.
`Kept` is the invariant: whoever has a stake in `J` is named by its row, which
is claimed, and by the snapshot it has read.  So there is one such worker at a
time, no outcome write misses, and `handle_success` is reached once between two
replays.
-/

namespace NotifyQueue

open KeyedTable

/-- `RECOVER_STALE_CLAIMED` does not select `J`. -/
def neverReclaimed (J : JobId) (s : State) : Action → Bool
  | .scheduler k (.run env) =>
    match s.schedulers k with
    | .recovering => decide (J ∉ env.batch)
    | _ => true
  | _ => true

variable {cfg : Settings} {s t : State} {a : Action} {es h : List Event} {J : JobId}

theorem not_reclaimed {k : SchedulerId} {env : Env}
    (hok : neverReclaimed J s (.scheduler k (.run env)) = true)
    (hpc : s.schedulers k = .recovering) : J ∉ env.batch := by
  rw [neverReclaimed, hpc] at hok
  exact of_decide_eq_true hok

/-- Whoever has a stake in `J` is the owner of its claimed row, and its snapshot
says so; no scheduler is about to dead-letter `J`. -/
structure Kept (s : State) (J : JobId) : Prop where
  row : ∀ w x, s.stake w = some ⟨J, x⟩ →
    ∃ r, s.row J = some r ∧ r.status = .claimed ∧ r.workerId = some w
  snapshot : ∀ w job, s.stake w = some ⟨J, some job⟩ →
    job.status = .claimed ∧ job.workerId = some w
  recovered : ∀ k x, x ∈ s.recovered k → x.id ≠ J

theorem kept_init (hi : Initial s) (J : JobId) : Kept s J where
  row w x hst := by
    rw [stake_initial hi] at hst
    cases hst
  snapshot w job hst := by
    rw [stake_initial hi] at hst
    cases hst
  recovered k x hx := by
    rw [recovered_initial hi] at hx
    cases hx

theorem Kept.unique (hk : Kept s J) {w w' : WorkerId} {x x' : Option Job}
    (hw : s.stake w = some ⟨J, x⟩) (hw' : s.stake w' = some ⟨J, x'⟩) : w = w' := by
  obtain ⟨r, hr, -, hown⟩ := hk.row w x hw
  obtain ⟨r', hr', -, hown'⟩ := hk.row w' x' hw'
  cases hr.symm.trans hr'
  exact Option.some.inj (hown.symm.trans hown')

theorem Kept.outcome (hk : Kept s J) {w v : WorkerId} {x : Option Job} {env : Env} {job : Job}
    (hst : s.stake w = some ⟨J, x⟩) (hpc : (s.workers v).pc.outcome? = some job)
    (hid : job.id = J) : outcome? s (.worker v (.run env)) = some (w, job) := by
  have hv : s.stake v = some ⟨J, some job⟩ := hid ▸ outcome_stake hpc
  rw [hk.unique hst hv]
  exact outcome_of_pc env hpc

theorem kept_row_step (hok : neverReclaimed J s a = true) (hstep : step cfg s a = some (t, es))
    (hk : Kept s J) {w : WorkerId} {x : Option Job} (hst : t.stake w = some ⟨J, x⟩) :
    ∃ r, t.row J = some r ∧ r.status = .claimed ∧ r.workerId = some w := by
  obtain ⟨before, after, e, ls, hb, ha, he, -, hE⟩ := step_effect hstep J
  rcases stake_step hstep hst with ⟨hkept, hno⟩ | ⟨-, -, hev⟩ | ⟨hkept, -, -, hdb, -⟩
  · obtain ⟨r, hr, hc, hw⟩ := hk.row w x hkept
    have hnot : ∀ {status : JobStatus}, r.status = status → status = .claimed := by
      intro status h
      rw [← h, hc]
    rw [hr] at hb
    cases hE with
    | stay | deliver => exact ⟨r, ha.trans hb.symm, hc, hw⟩
    | create => cases hb
    | beat hc' hw' =>
      cases hb
      exact ⟨_, ha, hc, hw⟩
    | promote _ _ hp =>
      cases hb
      cases hnot hp
    | claim _ hq =>
      cases hb
      cases hnot hq
    | replay hd =>
      cases hb
      cases hnot hd
    -- an outcome write by anyone is the write of the one worker with a stake
    | send hpc hid => exact absurd (hk.outcome hkept (by rw [hpc]; rfl) hid) (hno _)
    | retry hpc hid => exact absurd (hk.outcome hkept (by rw [hpc]; rfl) hid) (hno _)
    | defer hpc hid => exact absurd (hk.outcome hkept (by rw [hpc]; rfl) hid) (hno _)
    | giveUp hpc hid => exact absurd (hk.outcome hkept (by rw [hpc]; rfl) hid) (hno _)
    | @bury k env row rest r' hpc hid =>
      exact absurd hid (hk.recovered k row (recovered_of_burying hpc))
    | reclaim hpc hJ => exact absurd hJ (not_reclaimed hok hpc)
  · have hev' : e = [.claimed w J] := he.symm.trans hev
    cases hE <;> cases hev'
    exact ⟨_, ha, rfl, rfl⟩
  · obtain ⟨r, hr, hc, hw⟩ := hk.row w none hkept
    refine ⟨r, ?_, hc, hw⟩
    rw [State.row, hdb]
    exact hr

theorem kept_step (hok : neverReclaimed J s a = true) (hstep : step cfg s a = some (t, es))
    (hk : Kept s J) : Kept t J where
  row w x hst := kept_row_step hok hstep hk hst
  snapshot w job hst := by
    rcases stake_step hstep hst with ⟨hkept, -⟩ | ⟨-, hnone, -⟩ | ⟨hkept, hsnap, hrow, -, -⟩
    · exact hk.snapshot w job hkept
    · cases hnone
    · cases hsnap
      obtain ⟨r, hr, hc, hw⟩ := hk.row w none hkept
      cases hr.symm.trans hrow
      exact ⟨hc, hw⟩
  recovered k x hx hid := by
    subst hid
    rcases recovered_step hstep hx with hx | ⟨r, -, -, he⟩
    · exact hk.recovered k x hx rfl
    · obtain ⟨before, after, e, ls, -, -, he', -, hE⟩ := step_effect hstep x.id
      have hev : e = [.reclaimed x.id] := he'.symm.trans he
      cases hE <;> cases hev
      rename_i hpc hJ _
      exact not_reclaimed hok hpc hJ

theorem run_kept (hr : Lts.Run (system cfg) (neverReclaimed J) h s) : Kept s J :=
  hr.invariant (I := fun _ s => Kept s J) (fun _ hi => kept_init hi J)
    (fun _ _ _ _ _ _ hk hok hstep => kept_step hok hstep hk)

/-- **No outcome write misses.** -/
theorem outcome_matches (hk : Kept s J) (hstep : step cfg s a = some (t, es)) {w : WorkerId}
    {job : Job} (ho : outcome? s a = some (w, job)) (hid : job.id = J) :
    .lost w J ∉ es ∧ ∃ r, s.row J = some r ∧ r.status = .claimed ∧ r.workerId = some w := by
  subst hid
  have hst := stake_of_outcome? ho
  obtain ⟨r, hr, hc, hw⟩ := hk.row w _ hst
  obtain ⟨-, hj⟩ := hk.snapshot w job hst
  refine ⟨?_, r, hr, hc, hw⟩
  cases outcome_result hstep ho with
  | lost _ _ hmiss => exact absurd hc (hmiss r hr (hw.trans hj.symm) (by rw [hw]; simp))
  | @matched r₀ x _ _ _ hes hx =>
    intro hl
    rw [hes] at hl
    cases List.mem_singleton.mp hl
    cases hx

/-! ### Deliveries -/

def Event.isReplay : Event → Bool
  | .replayed _ => true
  | _ => false

def Event.isDelivery : Event → Bool
  | .delivered _ _ => true
  | _ => false

/-- How often `J` has reached `handle_success` since its latest replay. -/
def deliveries (J : JobId) (h : List Event) : Nat := tally Event.isReplay Event.isDelivery J h

/-- Once `J` has been delivered it is sent, or is about to be by the one worker
with a stake in it. -/
structure Once (n : Nat) (s : State) (J : JobId) : Prop where
  once : n ≤ 1
  done : 0 < n → ∃ r, s.row J = some r ∧ (r.status = .sent ∨ r.status = .claimed ∧
    ∀ w x, s.stake w = some ⟨J, x⟩ → ∃ job, (s.workers w).pc = .succeeding job)

theorem once_zero (s : State) (J : JobId) : Once 0 s J :=
  ⟨Nat.zero_le 1, fun h => absurd h (Nat.lt_irrefl 0)⟩

theorem Once.not_before {n : Nat} (ho : Once n s J) (hk : Kept s J) {w : WorkerId}
    {x : Option Job} (hst : s.stake w = some ⟨J, x⟩)
    (hpc : ∀ job, (s.workers w).pc ≠ .succeeding job) : n = 0 := by
  by_contra hn
  obtain ⟨r, hr, hs | ⟨-, hall⟩⟩ := ho.done (Nat.pos_of_ne_zero hn)
  · obtain ⟨r', hr', hc, -⟩ := hk.row w x hst
    cases hr.symm.trans hr'
    cases hs.symm.trans hc
  · obtain ⟨job, hj⟩ := hall w x hst
    exact hpc job hj

theorem Once.not_started {n : Nat} (ho : Once n s J)
    (hrow : ∀ r, s.row J = some r → r.status ≠ .sent ∧ r.status ≠ .claimed) : n = 0 := by
  by_contra hn
  obtain ⟨r, hr, hs | ⟨hc, -⟩⟩ := ho.done (Nat.pos_of_ne_zero hn)
  · exact (hrow r hr).1 hs
  · exact (hrow r hr).2 hc

/-- A step that leaves the status alone and is not a delivery. -/
theorem Once.stay {n : Nat} (ho : Once n s J) (hstep : step cfg s a = some (t, es))
    (hes : jobEvents J es = [])
    (hrow : ∀ r, s.row J = some r → ∃ r', t.row J = some r' ∧ r'.status = r.status) :
    Once n t J := by
  refine ⟨ho.once, fun hn => ?_⟩
  obtain ⟨r, hr, hs⟩ := ho.done hn
  obtain ⟨r', hr', hst⟩ := hrow r hr
  refine ⟨r', hr', ?_⟩
  rw [hst]
  refine hs.imp_right (fun ⟨hc, hall⟩ => ⟨hc, fun w x hw => ?_⟩)
  rcases stake_step hstep hw with ⟨hkept, -⟩ | ⟨-, -, hev⟩ | ⟨hkept, -, -, -, -⟩
  · obtain ⟨job, hj⟩ := hall w x hkept
    exact ⟨job, pc_of_succeeding hstep hj (by rw [hw]; simp)⟩
  · cases hes.symm.trans hev
  · obtain ⟨job, hj⟩ := hall w none hkept
    rw [State.stake, hj] at hkept
    cases hkept

theorem deliveries_none (he : jobEvents J es = []) (h : List Event) :
    deliveries J (es ++ h) = deliveries J h := tally_none he h

theorem deliveries_one {x : Event} (he : jobEvents J es = [x]) (hx : x.isReplay = false)
    (h : List Event) : deliveries J (es ++ h) = deliveries J h + (if x.isDelivery then 1 else 0) :=
  tally_one he hx h

theorem deliveries_replay {x : Event} (he : jobEvents J es = [x]) (hx : x.isReplay = true)
    (h : List Event) : deliveries J (es ++ h) = 0 := tally_restart he hx h

theorem once_step (hk : Kept s J) (hok : neverReclaimed J s a = true)
    (hstep : step cfg s a = some (t, es)) (ho : Once (deliveries J h) s J) :
    Once (deliveries J (es ++ h)) t J := by
  obtain ⟨before, after, e, ls, hb, ha, he, -, hE⟩ := step_effect hstep J
  have hidle : ∀ {r : Job} {status : JobStatus}, s.row J = some r → r.status = status →
      status ≠ .sent ∧ status ≠ .claimed → deliveries J h = 0 := by
    intro r status hr hst hne
    refine ho.not_started (fun r' hr' => ?_)
    cases hr.symm.trans hr'
    rwa [hst]
  cases hE with
  | stay =>
    rw [deliveries_none he]
    exact ho.stay hstep he (fun r hr => ⟨r, ha.trans (hb.symm.trans hr), rfl⟩)
  | beat =>
    rw [deliveries_none he]
    refine ho.stay hstep he (fun r hr => ⟨_, ha, ?_⟩)
    cases hb.symm.trans hr
    rfl
  | @deliver v env job r hpc hid =>
    have hst : s.stake v = some ⟨J, some job⟩ := by rw [State.stake, hpc, ← hid]; rfl
    rw [deliveries_one he rfl, ho.not_before hk hst (by simp [hpc])]
    refine ⟨Nat.le_refl 1, fun _ => ?_⟩
    obtain ⟨r, hr, hc, hw⟩ := hk.row v _ hst
    have hr' : t.row J = some r := ha.trans (hb.symm.trans hr)
    refine ⟨r, hr', Or.inr ⟨hc, fun w x hwx => ⟨job, ?_⟩⟩⟩
    obtain ⟨r', hr'', -, hw'⟩ := kept_row_step hok hstep hk hwx
    cases hr'.symm.trans hr''
    cases hw.symm.trans hw'
    refine pc_of_delivered hstep hpc (fun hes => ?_)
    rw [hes] at he
    cases he
  | create =>
    rw [deliveries_one he rfl, ho.not_started (fun r hr => by cases hb.symm.trans hr)]
    exact once_zero t J
  | promote _ _ hp =>
    rw [deliveries_one he rfl, hidle hb hp (by decide)]
    exact once_zero t J
  | claim _ hq =>
    rw [deliveries_one he rfl, hidle hb hq (by decide)]
    exact once_zero t J
  | send =>
    rw [deliveries_one he rfl]
    exact ⟨ho.once, fun _ => ⟨_, ha, Or.inl rfl⟩⟩
  | @retry v env job r error next hpc hid | @giveUp v env job r error hpc hid
  | @defer v env job r checkedAt next hpc hid =>
    have hst : s.stake v = some ⟨J, some job⟩ := by rw [State.stake, hpc, ← hid]; rfl
    rw [deliveries_one he rfl, ho.not_before hk hst (by simp [hpc])]
    exact once_zero t J
  | @bury k env row rest r hpc hid =>
    exact absurd hid (hk.recovered k row (recovered_of_burying hpc))
  | reclaim hpc hJ => exact absurd hJ (not_reclaimed hok hpc)
  | replay =>
    rw [deliveries_replay he rfl]
    exact once_zero t J

theorem run_once (hr : Lts.Run (system cfg) (neverReclaimed J) h s) :
    Once (deliveries J h) s J :=
  hr.invariant (I := fun h s => Once (deliveries J h) s J) (fun _ _ => once_zero _ J)
    (fun _ _ _ _ _ hr ho hok hstep => once_step (run_kept hr) hok hstep ho)

/-- **Exactly once when nobody times out.**  In a run that never reclaims `J`,
one worker at a time is between its claim of `J` and its outcome write, the row
it reads is its own claimed row, its outcome write matches, and `J` is
delivered at most once between two replays. -/
theorem exactly_once (hr : Lts.Run (system cfg) (neverReclaimed J) h s) :
    (∀ w w' x x', s.stake w = some ⟨J, x⟩ → s.stake w' = some ⟨J, x'⟩ → w = w') ∧
    (∀ w job, s.stake w = some ⟨J, some job⟩ →
      job.status = .claimed ∧ job.workerId = some w) ∧
    (∀ a t es w job, neverReclaimed J s a = true → step cfg s a = some (t, es) →
      outcome? s a = some (w, job) → job.id = J →
      .lost w J ∉ es ∧ ∃ r, s.row J = some r ∧ r.status = .claimed ∧ r.workerId = some w) ∧
    deliveries J h ≤ 1 := by
  have hk := run_kept hr
  exact ⟨fun w w' x x' => hk.unique, hk.snapshot,
    fun a t es w job _ hstep ho hid => outcome_matches hk hstep ho hid, (run_once hr).once⟩

/-- Worker `1` has delivered job `7` and is about to mark it sent. -/
theorem exactly_once_delivery : ∃ h s job, Lts.Run (system {}) (neverReclaimed 7) h s ∧
    .delivered 1 7 ∈ h ∧ s.stake 1 = some ⟨7, some job⟩ ∧ job.workerId = some 1 ∧
    deliveries 7 h ≤ 1 := by
  obtain ⟨s, h, hr, hf⟩ := Lts.run_of_replay (system {}) (neverReclaimed 7)
    (.createJob 7 plainJob :: promotion 0 7 ++ claim 1 ++
      [work 1, work 1, work 1 { random := 1 / 2 }])
    (fun p : State × List Event => ((outcome? p.1 (work 1)).map (fun o => (o.1, o.2.id)),
      decide (Event.delivered 1 7 ∈ p.2)))
    (some (1, 7), true) initial_empty (by decide +kernel)
  obtain ⟨ho, hd⟩ := Prod.mk.inj hf
  obtain ⟨⟨w, job⟩, ho, hwj⟩ := Option.map_eq_some_iff.mp ho
  obtain ⟨rfl, hid⟩ := Prod.mk.inj hwj
  obtain ⟨-, hsnap, -, hle⟩ := exactly_once hr
  have hst : s.stake 1 = some ⟨7, some job⟩ := by
    rw [stake_of_outcome? ho]
    exact congrArg (fun id => some (Stake.mk id (some job))) hid
  exact ⟨h, s, job, hr, of_decide_eq_true hd, hst, (hsnap 1 job hst).2, hle⟩

end NotifyQueue
