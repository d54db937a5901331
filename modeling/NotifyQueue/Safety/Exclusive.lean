import NotifyQueue.Job.Copies
import NotifyQueue.Lib.Lease

/-!
# A job is a lease

The row of a job refines a `Lease`: queued is offered, claimed is held by
`worker_id`, everything else is idle.  `Effect.move` is the simulation, one
case for each thing a step can do; it uses nothing of Redis.  So the laws of
leases hold of claims whatever the queues and the locks contain: a job is
claimed at most as often as it is promoted, between two claims it has left
`claimed` and then been promoted, and a claimed job belongs to whoever claimed
it last.
-/

namespace NotifyQueue

open KeyedTable

/-- Where the lease on a job stands. -/
def Job.phase (r : Job) : Lease.Phase WorkerId :=
  match r.status, r.workerId with
  | .queued, _ => .offered
  | .claimed, some w => .held w
  | _, _ => .idle

def leasePhase (row : Option Job) : Lease.Phase WorkerId := row.elim .idle Job.phase

def Event.lease : Event → Option (Lease.Event WorkerId)
  | .promoted _ => some .offer
  | .claimed w _ => some (.take w)
  | e => if e.leaves then some .leave else none

/-- What an event means for the lease on `J`. -/
def leaseEvent (J : JobId) (e : Event) : Option (Lease.Event WorkerId) :=
  if e.job? = some J then e.lease else none

/-- A claim of `J`. -/
def Event.claims (J : JobId) : Event → Bool
  | .claimed _ id => decide (id = J)
  | _ => false

variable {cfg : Settings} {s t : State} {a : Action} {es h : List Event} {J : JobId}
  {before after : Option Job} {e : List Event} {ls : List DeadLetter}

/-! ### The phase of a row -/

theorem phase_idle {r : Job} (hq : r.status ≠ .queued) (hc : r.status ≠ .claimed) :
    r.phase = .idle := by
  unfold Job.phase
  split
  · rename_i h
    exact absurd h hq
  · rename_i h _
    exact absurd h hc
  · rfl

theorem phase_offered {r : Job} (hq : r.status = .queued) : r.phase = .offered := by
  simp only [Job.phase, hq]

theorem phase_held {r : Job} (hc : r.status = .claimed) (hw : r.workerId ≠ none) :
    ∃ w, r.phase = .held w ∧ r.workerId = some w := by
  obtain ⟨w, hw⟩ := Option.ne_none_iff_exists'.mp hw
  exact ⟨w, by simp only [Job.phase, hc, hw], hw⟩

theorem move_leave {r : Job} (hc : r.status = .claimed) (hw : r.workerId ≠ none) :
    Lease.Move r.phase [.leave] .idle := by
  obtain ⟨w, hp, -⟩ := phase_held hc hw
  rw [hp]
  exact .leave w

theorem move_deadLettered {r : Job} (ho : r.Owned) (caller : Option WorkerId) :
    Lease.Move r.phase
      (([.deadLettered caller (some r.status) J] : List Event).filterMap Event.lease) .idle := by
  cases hst : r.status with
  | claimed => exact move_leave hst (ho.mpr (Or.inl hst))
  | queued =>
    rw [phase_offered hst]
    exact .withdraw
  | pending | sent | failed | deadLettered =>
    rw [phase_idle (by rw [hst]; decide) (by rw [hst]; decide)]
    exact .stay _

/-- **One step of the system is one move of the lease.** -/
theorem Effect.move (hE : Effect cfg s J a before after e ls)
    (ho : ∀ r, before = some r → r.Owned) :
    Lease.Move (leasePhase before) (e.filterMap Event.lease) (leasePhase after) := by
  cases hE with
  | stay | deliver | create | beat => exact .stay _
  | @promote k env r _ _ hp =>
    rw [show leasePhase (some r) = .idle from
      phase_idle (by rw [hp]; decide) (by rw [hp]; decide)]
    exact .offer
  | @claim w env rest r _ hq =>
    rw [show leasePhase (some r) = .offered from phase_offered hq]
    exact .take w
  | send _ _ hc _ hw => exact move_leave hc hw
  | retry _ _ _ hc _ hw => exact move_leave hc hw
  | defer _ _ hc _ hw => exact move_leave hc hw
  | reclaim _ _ hc => exact move_leave hc ((ho _ rfl).mpr (Or.inl hc))
  | giveUp => exact move_deadLettered (ho _ rfl) _
  | bury => exact move_deadLettered (ho _ rfl) _
  | @replay r hd =>
    rw [show leasePhase (some r) = .idle from
      phase_idle (by rw [hd]; decide) (by rw [hd]; decide)]
    exact .stay _

/-! ### Histories -/

theorem filterMap_jobEvents (J : JobId) (es : List Event) :
    (jobEvents J es).filterMap Event.lease = es.filterMap (leaseEvent J) := by
  rw [jobEvents, List.filterMap_filter]
  refine List.filterMap_congr (fun e _ => ?_)
  simp only [leaseEvent, decide_eq_true_eq]

/-- **Every run of the system is a history of the lease.** -/
theorem run_lease {ok : State → Action → Bool} (hr : Lts.Run (system cfg) ok h s) (J : JobId) :
    Lease.History (h.filterMap (leaseEvent J)) (leasePhase (s.row J)) := by
  refine hr.invariant
    (I := fun h s => Lease.History (h.filterMap (leaseEvent J)) (leasePhase (s.row J)))
    (fun s hi => ?_) (fun h s a t es hr ih _ hstep => ?_)
  · rw [row_initial hi]
    exact .nil
  · obtain ⟨ls, hE, -⟩ := step_affects hstep J
    have hm := hE.move (run_sound hr J).owned
    rw [filterMap_jobEvents] at hm
    rw [List.filterMap_append]
    exact .move ih hm

theorem claims_iff {e : Event} : e.claims J = true ↔ ∃ w, e = .claimed w J := by
  cases e <;> simp [Event.claims]

theorem leaseEvent_iff {e : Event} {x : Lease.Event WorkerId} :
    leaseEvent J e = some x ↔ e.job? = some J ∧ e.lease = some x := by
  rw [leaseEvent]
  split
  · rename_i hJ
    exact ⟨fun h => ⟨hJ, h⟩, fun h => h.2⟩
  · rename_i hJ
    constructor
    · intro h
      cases h
    · rintro ⟨h, -⟩
      exact absurd h hJ

theorem leaseEvent_take {e : Event} {w : WorkerId} :
    leaseEvent J e = some (.take w) ↔ e = .claimed w J := by
  rw [leaseEvent_iff]
  constructor
  · rintro ⟨hJ, hl⟩
    cases e with
    | claimed v id =>
      cases hl
      cases hJ
      rfl
    | promoted => cases hl
    | _ => simp [Event.lease] at hl
  · rintro rfl
    exact ⟨rfl, rfl⟩

theorem leaseEvent_offer {e : Event} : leaseEvent J e = some .offer ↔ e = .promoted J := by
  rw [leaseEvent_iff]
  constructor
  · rintro ⟨hJ, hl⟩
    cases e with
    | promoted id =>
      cases hJ
      rfl
    | claimed => cases hl
    | _ => simp [Event.lease] at hl
  · rintro rfl
    exact ⟨rfl, rfl⟩

theorem leaseEvent_leave {e : Event} :
    leaseEvent J e = some .leave ↔ e.job? = some J ∧ e.leaves = true := by
  rw [leaseEvent_iff]
  refine and_congr_right (fun _ => ?_)
  cases e with
  | promoted | claimed => constructor <;> intro h <;> cases h
  | _ => simp [Event.lease]

theorem isTake_leaseEvent (e : Event) :
    (leaseEvent J e).any Lease.Event.isTake = e.claims J := by
  rw [Bool.eq_iff_iff, Option.any_eq_true, claims_iff]
  constructor
  · rintro ⟨x, hx, ht⟩
    cases x with
    | take w => exact ⟨w, leaseEvent_take.mp hx⟩
    | offer | leave => cases ht
  · rintro ⟨w, rfl⟩
    exact ⟨.take w, leaseEvent_take.mpr rfl, rfl⟩

theorem isOffer_leaseEvent (e : Event) :
    (leaseEvent J e).any Lease.Event.isOffer = (e == .promoted J) := by
  rw [Bool.eq_iff_iff, Option.any_eq_true, beq_iff_eq]
  constructor
  · rintro ⟨x, hx, ho⟩
    cases x with
    | offer => exact leaseEvent_offer.mp hx
    | take | leave => cases ho
  · rintro rfl
    exact ⟨.offer, leaseEvent_offer.mpr rfl, rfl⟩

theorem countP_take (h : List Event) :
    (h.filterMap (leaseEvent J)).countP Lease.Event.isTake = h.countP (Event.claims J) := by
  rw [List.countP_filterMap]
  refine List.countP_congr (fun e _ => ?_)
  rw [← isTake_leaseEvent]
  cases leaseEvent J e <;> rfl

theorem countP_offer (h : List Event) :
    (h.filterMap (leaseEvent J)).countP Lease.Event.isOffer = h.count (.promoted J) := by
  rw [List.countP_filterMap, List.count]
  refine List.countP_congr (fun e _ => ?_)
  rw [← isOffer_leaseEvent]
  cases leaseEvent J e <;> rfl

/-! ### The laws of claims -/

/-- **Claims are exclusive by the status gate alone.**  Between two claims of a
job it left `claimed` and was promoted after that; it is claimed at most as
often as it is promoted; and a claimed job is owned by its latest claimant.
The events are what their names say: a claim takes a queued row, a promotion a
pending one, and what leaves `claimed` was claimed. -/
theorem claims_exclusive (hr : Lts.Run (system cfg) always h s) (J : JobId) :
    (∀ new w mid w' old, h = new ++ .claimed w J :: (mid ++ .claimed w' J :: old) →
      ∃ x y, mid = x ++ .promoted J :: y ∧ ∃ e ∈ y, e.job? = some J ∧ e.leaves = true) ∧
    h.countP (Event.claims J) ≤ h.count (.promoted J) ∧
    (∀ r, s.row J = some r → r.status = .claimed →
      ∃ w, r.workerId = some w ∧ h.find? (Event.claims J) = some (.claimed w J)) ∧
    (∀ a t es, step cfg s a = some (t, es) →
      (∀ w, .claimed w J ∈ es → ∃ r r', s.row J = some r ∧ r.status = .queued ∧
        t.row J = some r' ∧ r'.status = .claimed ∧ r'.workerId = some w) ∧
      (.promoted J ∈ es → ∃ r r', s.row J = some r ∧ r.status = .pending ∧
        t.row J = some r' ∧ r'.status = .queued) ∧
      (∀ e ∈ es, e.job? = some J → e.leaves = true → ∃ r r', s.row J = some r ∧
        r.status = .claimed ∧ t.row J = some r' ∧ r'.status ≠ .claimed)) := by
  have hl := run_lease hr J
  refine ⟨?_, ?_, ?_, fun a t es hstep => ⟨fun w => row_of_claimed hstep,
    row_of_promoted hstep, fun e => row_of_leaves hstep⟩⟩
  · intro new w mid w' old hh
    have hf : h.filterMap (leaseEvent J) = new.filterMap (leaseEvent J) ++ .take w ::
        (mid.filterMap (leaseEvent J) ++ .take w' :: old.filterMap (leaseEvent J)) := by
      rw [hh, List.filterMap_append, List.filterMap_cons_some (leaseEvent_take.mpr rfl),
        List.filterMap_append, List.filterMap_cons_some (leaseEvent_take.mpr rfl)]
    obtain ⟨x, y, hxy, hy⟩ := hl.between _ _ _ _ _ hf
    obtain ⟨x', z, rfl, -, hz⟩ := List.filterMap_eq_append_iff.mp hxy
    obtain ⟨x'', e, y', rfl, -, he, rfl⟩ := List.filterMap_eq_cons_iff.mp hz
    obtain rfl := leaseEvent_offer.mp he
    obtain ⟨e, hey, he⟩ := List.mem_filterMap.mp hy
    refine ⟨x' ++ x'', y', (List.append_assoc _ _ _).symm, e, hey, ?_⟩
    exact leaseEvent_leave.mp he
  · have := hl.takes_le_offers
    rwa [countP_take, countP_offer] at this
  · intro r hrow hc
    have hw : r.workerId ≠ none := ((run_sound hr J).owned r hrow).mpr (Or.inl hc)
    obtain ⟨w, hp, hw⟩ := phase_held hc hw
    have hfind := hl.holder w (by rw [hrow]; exact hp)
    rw [List.find?_filterMap] at hfind
    obtain ⟨e, he, hle⟩ := Option.bind_eq_some_iff.mp hfind
    obtain rfl := leaseEvent_take.mp hle
    refine ⟨w, hw, ?_⟩
    rw [← he]
    exact congrArg (h.find? ·) (funext fun e => (isTake_leaseEvent e).symm)

/-- Job `7` is promoted once and claimed by worker `1`: the laws name the owner. -/
theorem claims_exclusive_first : ∃ h s, Lts.Run (system {}) always h s ∧
    h.countP (Event.claims 7) ≤ 1 ∧ ∃ r, s.row 7 = some r ∧ ∃ w, r.workerId = some w ∧
      h.find? (Event.claims 7) = some (.claimed w 7) := by
  obtain ⟨s, h, hr, hf⟩ := Lts.run_of_replay (system {}) always
    (.createJob 7 plainJob :: promotion 0 7 ++ claim 1)
    (fun p => (p.2.count (.promoted 7), (p.1.row 7).map Job.status))
    (1, some .claimed) initial_empty (by decide +kernel)
  obtain ⟨hp, hrow⟩ := Prod.mk.inj hf
  obtain ⟨r, hr7, hc⟩ := Option.map_eq_some_iff.mp hrow
  obtain ⟨-, hle, hown, -⟩ := claims_exclusive hr 7
  exact ⟨h, s, hr, hp ▸ hle, r, hr7, hown r hr7 hc⟩

end NotifyQueue
