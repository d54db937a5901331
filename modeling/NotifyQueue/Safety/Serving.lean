import NotifyQueue.Safety.Deferral
import NotifyQueue.Safety.Iterations
import NotifyQueue.Safety.Windows

/-!
# Serving an hour

Jobs are due that the rate limit does not let through within the hour.  During the hour
every job of the backlog waits for its promotion, is in the queue of its priority, has been
sent, or has been deferred, the last only when the limit of its recipient is used up
(`Serving`).  A tick of the scheduler and an iteration of a worker keep this
(`serving_tick`, `serving_iteration`), in any order.
-/

namespace NotifyQueue

open KeyedTable

/-- When the jobs that are deferred into an hour are due: the opening, the second that
`seconds_until_next_window` adds, and the time between two readings of the clock. -/
def dueBy (gap : Time) (K : Int) : Time := K * hour + second + gap

/-- A call during hour `K`.  The clock of Redis may lag by an hour; a delivery does not
fail; a tick comes when all that was deferred into the hour is due and nothing that is
deferred out of it. -/
def InHour (cfg : Settings) (gap : Time) (K : Int) : Time × Time × Call → Prop
  | (_, u, .iterate _ o) => K * hour ≤ u ∧ u < (K + 2) * hour ∧ o.checkedAt / hour = K ∧
      o.checkedAt ≤ o.clock ∧ o.clock ≤ o.checkedAt + gap ∧ ¬ o.random < cfg.deliveryFailureRate
  | (t, _, .tick _ _) => dueBy gap K ≤ t + cfg.schedulerLookaheadSeconds * second ∧
      t + cfg.schedulerLookaheadSeconds * second ≤ (K + 1) * hour

/-- The rows of a recipient with a status. -/
def Db.countFor (db : Db) (status : JobStatus) (recipient : String) : ℕ :=
  db.jobs.rows.countP (fun r => decide (r.status = status) && decide (r.recipient = recipient))

/-- What promotion, claim, delivery and deferral leave alone. -/
def Job.ticket (r : Job) : Job :=
  { r with sendAt := 0, status := .pending, workerId := none, claimedAt := none,
           heartbeatAt := none, sentAt := none, updatedAt := 0 }

variable {cfg : Settings} {gap : Time} {K : Int} {db db' : Db} {used : String → ℕ} {sh sh' : Shared}
  {w : WorkerId} {o : Outside} {t u : Time} {ids ids' : List JobId} {id : JobId}

theorem recipient_of_ticket {r r' : Job} (h : r.ticket = r'.ticket) :
    r.recipient = r'.recipient := by
  have he := congrArg Job.recipient h
  exact he

theorem priority_of_ticket {r r' : Job} (h : r.ticket = r'.ticket) :
    r.priority = r'.priority := by
  have he := congrArg Job.priority h
  exact he

theorem dueBy_le (hgap : gap + second ≤ hour) (K : Int) : dueBy gap K ≤ (K + 1) * hour := by
  rw [dueBy, Int.add_mul, Int.one_mul, Int.add_assoc, Int.add_comm second]
  exact Int.add_le_add_left hgap _

theorem countFor_succ {status : JobStatus} {r : Job} (hr : db'.row id = some r)
    (hst : r.status = status) (hno : ∀ x, db.row id = some x → x.status ≠ status)
    (h : ∀ j, j ≠ id → db'.row j = db.row j) :
    db'.countFor status r.recipient = db.countFor status r.recipient + 1 := by
  refine Table.countP_succ hr (by simp [hst]) (fun x hx => ?_) h
  simp [hno x hx]

theorem countFor_eq {status : JobStatus} {recipient : String}
    (hno : ∀ x, db.row id = some x → ¬ (x.status = status ∧ x.recipient = recipient))
    (hno' : ∀ x, db'.row id = some x → ¬ (x.status = status ∧ x.recipient = recipient))
    (h : ∀ j, j ≠ id → db'.row j = db.row j) :
    db'.countFor status recipient = db.countFor status recipient := by
  refine Table.countP_congr (fun j => ?_)
  simp only [Bool.and_eq_true, decide_eq_true_eq]
  by_cases hj : j = id
  · subst hj
    constructor
    · rintro ⟨x, hx, hp⟩
      exact absurd hp (hno' x hx)
    · rintro ⟨x, hx, hp⟩
      exact absurd hp (hno x hx)
  · have hsame : db'.jobs.find? j = db.jobs.find? j := h j hj
    rw [hsame]

/-- Where a job of the backlog is during hour `K`, when `used` deliveries of the hour are
used up. -/
inductive Stage (cfg : Settings) (gap : Time) (K : Int) (used : String → ℕ) (r : Job) : Prop
  | waiting : r.status = .pending → r.sendAt ≤ dueBy gap K → Stage cfg gap K used r
  | queued : r.status = .queued → Stage cfg gap K used r
  | sent : r.status = .sent → Stage cfg gap K used r
  | deferred : r.status = .pending → (K + 1) * hour < r.sendAt → r.sendAt ≤ dueBy gap (K + 1) →
      cfg.rateLimitPerHour ≤ used r.recipient → Stage cfg gap K used r

/-- The job has still to be sent. -/
def Job.open (r : Job) : Prop := r.status = .pending ∨ r.status = .queued

/-- Since the database was `db`, at the beginning of hour `K`, `used` deliveries have been
made, and every job is where `Stage` says. -/
structure Serving (cfg : Settings) (gap : Time) (K : Int) (db : Db) (used : String → ℕ)
    (sh : Shared) : Prop where
  ticket : ∀ id, (sh.db.row id).map Job.ticket = (db.row id).map Job.ticket
  rest : ∀ id r, db.row id = some r → r.status ≠ .pending →
    sh.db.row id = some r ∧ r.status ≠ .queued ∧ r.status ≠ .claimed
  stage : ∀ id r₀ r, db.row id = some r₀ → r₀.status = .pending → sh.db.row id = some r →
    Stage cfg gap K used r
  member : ∀ p id, id ∈ sh.redis.queue p ↔
    ∃ r, sh.db.row id = some r ∧ r.status = .queued ∧ r.priority = p
  lock : ∀ id, sh.redis.lock id = none
  counter : ∀ recipient,
    Lasting (sh.redis.counter ⟨recipient, K⟩) (windowClose ⟨recipient, K⟩) (used recipient)
  fresh : ∀ recipient k, K < k → sh.redis.counter ⟨recipient, k⟩ = none
  le : ∀ recipient, (used recipient : Int) ≤ cfg.rateLimitPerHour
  sent : ∀ recipient,
    sh.db.countFor .sent recipient = db.countFor .sent recipient + used recipient
  /-- What is queued comes before what waits. -/
  ahead : ∀ i j r r', sh.db.row i = some r → sh.db.row j = some r' → r.status = .queued →
    r'.status = .pending → r'.sendAt ≤ dueBy gap K → r.priority.rank ≤ r'.priority.rank
  /-- What has been sent came before what has not. -/
  order : ∀ i j r₀ r r', db.row i = some r₀ → r₀.status = .pending → sh.db.row i = some r →
    r.status = .sent → sh.db.row j = some r' → r'.open → r.recipient = r'.recipient →
    r.priority.rank ≤ r'.priority.rank

theorem Serving.row_of (h : Serving cfg gap K db used sh) {r : Job}
    (hr : sh.db.row id = some r) : ∃ r₀, db.row id = some r₀ ∧ r.ticket = r₀.ticket := by
  have ht := h.ticket id
  rw [hr, Option.map_some, eq_comm, Option.map_eq_some_iff] at ht
  obtain ⟨r₀, hr₀, he⟩ := ht
  exact ⟨r₀, hr₀, he.symm⟩

theorem Serving.stage_of_open (h : Serving cfg gap K db used sh) {r : Job}
    (hr : sh.db.row id = some r) (ho : r.open) : Stage cfg gap K used r ∧
      ∃ r₀, db.row id = some r₀ ∧ r₀.status = .pending := by
  obtain ⟨r₀, hr₀, -⟩ := h.row_of hr
  by_cases hp : r₀.status = .pending
  · exact ⟨h.stage id r₀ r hr₀ hp hr, r₀, hr₀, hp⟩
  · obtain ⟨hsame, hq, -⟩ := h.rest id r₀ hr₀ hp
    cases hr.symm.trans hsame
    rcases ho with ho | ho
    · exact absurd ho hp
    · exact absurd ho hq

/-- The rows, the entries and the counters are all that matters, as long as there is no
lock. -/
theorem Serving.congr (hs : Serving cfg gap K db used sh) (hjobs : sh'.db.jobs = sh.db.jobs)
    (hqueue : ∀ p j, j ∈ sh'.redis.queue p ↔ j ∈ sh.redis.queue p)
    (hlock : ∀ j, sh'.redis.lock j = none) (hcounter : sh'.redis.counter = sh.redis.counter) :
    Serving cfg gap K db used sh' := by
  have hrow : ∀ id, sh'.db.row id = sh.db.row id :=
    fun id => congrArg (fun jobs : Table Job => jobs.find? id) hjobs
  refine ⟨fun id => ?_, fun id r hr hst => ?_, fun id r₀ r hr₀ hst hr => ?_, fun p id => ?_,
    hlock, ?_, ?_, hs.le, fun recipient => ?_, fun i j r r' hr hr' => ?_,
    fun i j r₀ r r' hr₀ hst₀ hr hst hr' => ?_⟩
  · rw [hrow]
    exact hs.ticket id
  · rw [hrow]
    exact hs.rest id r hr hst
  · exact hs.stage id r₀ r hr₀ hst (hrow id ▸ hr)
  · rw [hqueue, hrow]
    exact hs.member p id
  · rw [hcounter]
    exact hs.counter
  · rw [hcounter]
    exact hs.fresh
  · rw [← hs.sent recipient, Db.countFor, Db.countFor, hjobs]
  · exact hs.ahead i j r r' (hrow i ▸ hr) (hrow j ▸ hr')
  · exact hs.order i j r₀ r r' hr₀ hst₀ (hrow i ▸ hr) hst (hrow j ▸ hr')

theorem Serving.setClocks (hs : Serving cfg gap K db used sh) (t u : Time) :
    Serving cfg gap K db used (sh.setClocks t u) :=
  hs.congr rfl (fun _ _ => Iff.rfl) hs.lock rfl

/-! ### A tick -/

/-- A job that is promoted. -/
def Job.promoted (r : Job) (now : Time) : Job := { r with status := .queued, updatedAt := now }

theorem Serving.waits (hs : Serving cfg gap K db used sh)
    (hin : InHour cfg gap K (t, u, .tick ids ids'))
    (hp : promotes cfg (sh.setClocks t u).db [] ids = true) (hid : id ∈ ids) :
    ∃ r, sh.db.row id = some r ∧ r.status = .pending ∧ r.sendAt ≤ dueBy gap K := by
  obtain ⟨r, hr, hd⟩ := promotes_mem hp hid
  obtain ⟨hst, hat, -⟩ := due_iff.mp hd
  refine ⟨r, hr, hst, ?_⟩
  rcases (hs.stage_of_open hr (Or.inl hst)).1 with ⟨-, hle⟩ | hst' | hst' | ⟨-, hlt, -⟩
  · exact hle
  · cases hst.symm.trans hst'
  · cases hst.symm.trans hst'
  · exact absurd (le_trans hat hin.2) (not_le.mpr hlt)

theorem Serving.passes (hs : Serving cfg gap K db used sh) {p : Priority}
    (hid : id ∈ sh.redis.queue p) : sh.passes id = true := by
  obtain ⟨r, hr, hst, -⟩ := (hs.member p id).mp hid
  refine passes_iff.mpr ⟨?_, r, hr, hst⟩
  rw [Redis.lock?, hs.lock]
  rfl

/-- What `claim_next_job` does to a queue whose entries can all be claimed. -/
theorem Serving.claim (hs : Serving cfg gap K db used sh) {r : Option JobId}
    (h : claimNextJob cfg w sh = some (sh', r)) :
    (∀ j, r ≠ some j → sh'.redis.lock j = none) ∧
    (∀ p j, j ∈ sh'.redis.queue p ↔ j ∈ sh.redis.queue p ∧ r ≠ some j) ∧
    ∀ id, r = some id → ∀ job, sh.db.row id = some job → ∀ j r', sh.db.row j = some r' →
      r'.status = .queued → job.priority.rank ≤ r'.priority.rank := by
  have hpass : ∀ j ∈ sh.redis.waiting priorityOrder, sh.passes j = true := by
    intro j hj
    obtain ⟨p, -, hmem⟩ := mem_waiting.mp hj
    exact hs.passes hmem
  obtain ⟨-, -, -, hframe⟩ := claimFrom_waiting priorityOrder_nodup hpass h
  have hresult := claimFrom_result priorityOrder_nodup h
  refine ⟨fun j hj => ?_, fun p j => ⟨fun hj => ?_, fun hj => ?_⟩, ?_⟩
  · rw [(hframe j hj).1]
    exact hs.lock j
  · have hin := claimFrom_subset h hj
    refine ⟨hin, ?_⟩
    rintro rfl
    -- the entry has left the queue of its priority, and it is in no other
    cases hresult with
    | @some before after q _ hps hbefore hfirst hyes hgone =>
      obtain ⟨x, hx, -, hxp⟩ := (hs.member q j).mp (mem_of_first? hfirst)
      obtain ⟨y, hy, -, hyp⟩ := (hs.member p j).mp hin
      cases hx.symm.trans hy
      obtain rfl : q = p := hxp.symm.trans hyp
      exact hgone hj
  · exact (claimFrom_keeps h (hs.passes hj.1) hj.1).resolve_left hj.2
  · rintro id rfl job hjob j r' hr' hst
    cases hresult with
    | @some before after p _ hps hbefore hfirst hyes hgone =>
      obtain ⟨x, hx, -, hxp⟩ := (hs.member p id).mp (mem_of_first? hfirst)
      cases hjob.symm.trans hx
      rw [hxp]
      by_contra hlt
      have hmem := (hs.member r'.priority j).mpr ⟨r', hr', hst, rfl⟩
      obtain ⟨i, hi⟩ := exists_first? hmem
      have hrej := hbefore _ ((mem_before hps).mpr (not_le.mp hlt)) i hi
      rw [hs.passes (mem_of_first? hi)] at hrej
      cases hrej

/-- A job has been sent on the account of its recipient, or deferred when the account
is used up. -/
inductive Charged (cfg : Settings) (gap : Time) (K : Int) (used : String → ℕ) (r : Job) :
    (String → ℕ) → Prop
  | sent : r.status = .sent → (used r.recipient : Int) < cfg.rateLimitPerHour →
      Charged cfg gap K used r (Function.update used r.recipient (used r.recipient + 1))
  | deferred : r.status = .pending → (K + 1) * hour < r.sendAt → r.sendAt ≤ dueBy gap (K + 1) →
      cfg.rateLimitPerHour ≤ used r.recipient → Charged cfg gap K used r used

theorem Charged.le {used' : String → ℕ} {r : Job} (h : Charged cfg gap K used r used')
    (recipient : String) : used recipient ≤ used' recipient := by
  cases h with
  | sent =>
    by_cases he : recipient = r.recipient
    · subst he
      rw [Function.update_self]
      omega
    · rw [Function.update_of_ne he]
  | deferred => exact le_rfl

theorem Stage.mono {used' : String → ℕ} {r : Job} (h : Stage cfg gap K used r)
    (hle : ∀ recipient, used recipient ≤ used' recipient) : Stage cfg gap K used' r := by
  rcases h with ⟨hst, hat⟩ | hst | hst | ⟨hst, hlt, hat, hl⟩
  · exact .waiting hst hat
  · exact .queued hst
  · exact .sent hst
  · have := hle r.recipient
    exact .deferred hst hlt hat (by omega)

theorem Charged.other {used' : String → ℕ} {r : Job} (h : Charged cfg gap K used r used')
    {recipient : String} (hne : recipient ≠ r.recipient) : used' recipient = used recipient := by
  cases h with
  | sent => exact Function.update_of_ne hne _ _
  | deferred => rfl

theorem Charged.not_queued {used' : String → ℕ} {r : Job} (hc : Charged cfg gap K used r used') :
    r.status ≠ .queued := by
  cases hc with
  | sent hst => rw [hst]; decide
  | deferred hst => rw [hst]; decide

/-- The deliveries made are those that have been charged. -/
theorem Serving.sent_charge (hs : Serving cfg gap K db used sh) {used' : String → ℕ} {job r : Job}
    (hjob : sh.db.row id = some job) (hq : job.status = .queued) (hr : sh'.db.row id = some r)
    (hc : Charged cfg gap K used r used') (hothers : ∀ j, j ≠ id → sh'.db.row j = sh.db.row j)
    (recipient : String) :
    sh'.db.countFor .sent recipient = db.countFor .sent recipient + used' recipient := by
  have hbefore : ∀ x, sh.db.row id = some x → x.status ≠ .sent := by
    intro x hx
    cases hjob.symm.trans hx
    rw [hq]
    decide
  have hsame : (r.status = .sent → recipient ≠ r.recipient) →
      sh'.db.countFor .sent recipient = sh.db.countFor .sent recipient := by
    intro hne
    refine countFor_eq (fun x hx hp => hbefore x hx hp.1) (fun x hx hp => ?_) hothers
    cases hr.symm.trans hx
    exact hne hp.1 hp.2.symm
  cases hc with
  | sent hst =>
    by_cases he : recipient = r.recipient
    · subst he
      rw [countFor_succ hr hst hbefore hothers, hs.sent, Function.update_self]
      omega
    · rw [Function.update_of_ne he, ← hs.sent]
      exact hsame (fun _ => he)
  | deferred hst =>
    rw [← hs.sent]
    exact hsame (fun h => by rw [hst] at h; cases h)

/-- The job that has been sent came before what has not been. -/
theorem Serving.order_charge (hs : Serving cfg gap K db used sh) {used' : String → ℕ}
    {job r : Job} (hjob : sh.db.row id = some job) (hq : job.status = .queued)
    (hfirst : ∀ j r', sh.db.row j = some r' → r'.status = .queued →
      job.priority.rank ≤ r'.priority.rank)
    (hr : sh'.db.row id = some r) (ht : r.ticket = job.ticket)
    (hc : Charged cfg gap K used r used') (hothers : ∀ j, j ≠ id → sh'.db.row j = sh.db.row j)
    (i j : JobId) (x₀ x y : Job) (hx₀ : db.row i = some x₀) (hst₀ : x₀.status = .pending)
    (hx : sh'.db.row i = some x) (hst : x.status = .sent) (hy : sh'.db.row j = some y)
    (ho : y.open) (hre : x.recipient = y.recipient) : x.priority.rank ≤ y.priority.rank := by
  have hrec : r.recipient = job.recipient := recipient_of_ticket ht
  have hpri : r.priority = job.priority := priority_of_ticket ht
  by_cases hi : i = id
  · subst hi
    cases hr.symm.trans hx
    have hj : j ≠ i := by
      rintro rfl
      cases hr.symm.trans hy
      rcases ho with ho | ho
      · cases hst.symm.trans ho
      · cases hst.symm.trans ho
    rw [hothers j hj] at hy
    rw [hpri]
    rcases (hs.stage_of_open hy ho).1 with ⟨hsty, hat⟩ | hsty | hsty | ⟨hsty, -, -, hl⟩
    · exact hs.ahead i j job y hjob hy hq hsty hat
    · exact hfirst j y hy hsty
    · rcases ho with ho | ho
      · cases hsty.symm.trans ho
      · cases hsty.symm.trans ho
    · cases hc with
      | sent _ hlt =>
        rw [hre] at hlt
        omega
      | deferred h => cases hst.symm.trans h
  · rw [hothers i hi] at hx
    by_cases hj : j = id
    · subst hj
      cases hr.symm.trans hy
      rw [hpri]
      exact hs.order i j x₀ x job hx₀ hst₀ hx hst hjob (Or.inr hq) (hre.trans hrec)
    · rw [hothers j hj] at hy
      exact hs.order i j x₀ x y hx₀ hst₀ hx hst hy ho hre

/-- **One job is taken and charged**: the invariant is kept. -/
theorem Serving.charge (hs : Serving cfg gap K db used sh) (hgap : gap + second ≤ hour)
    {used' : String → ℕ} {job r : Job} (hjob : sh.db.row id = some job)
    (hq : job.status = .queued)
    (hfirst : ∀ j r', sh.db.row j = some r' → r'.status = .queued →
      job.priority.rank ≤ r'.priority.rank)
    (hr : sh'.db.row id = some r) (ht : r.ticket = job.ticket)
    (hc : Charged cfg gap K used r used')
    (hothers : ∀ j, j ≠ id → sh'.db.row j = sh.db.row j)
    (hmember : ∀ p j, j ∈ sh'.redis.queue p ↔ j ∈ sh.redis.queue p ∧ j ≠ id)
    (hlock : ∀ j, sh'.redis.lock j = none)
    (hcounter : ∀ recipient, Lasting (sh'.redis.counter ⟨recipient, K⟩)
      (windowClose ⟨recipient, K⟩) (used' recipient))
    (hfresh : ∀ recipient k, K < k → sh'.redis.counter ⟨recipient, k⟩ = none) :
    Serving cfg gap K db used' sh' := by
  have hnotq := hc.not_queued
  constructor
  · intro j
    by_cases hj : j = id
    · subst hj
      rw [← hs.ticket j, hr, hjob, Option.map_some, Option.map_some, ht]
    · rw [hothers j hj]
      exact hs.ticket j
  · intro j x hx hst
    obtain ⟨hsame, hne⟩ := hs.rest j x hx hst
    have hj : j ≠ id := by
      rintro rfl
      cases hjob.symm.trans hsame
      exact hne.1 hq
    rw [hothers j hj]
    exact ⟨hsame, hne⟩
  · intro j x₀ x hx₀ hst hx
    by_cases hj : j = id
    · subst hj
      cases hr.symm.trans hx
      cases hc with
      | sent hst => exact .sent hst
      | deferred hst hlt hat hl => exact .deferred hst hlt hat hl
    · rw [hothers j hj] at hx
      exact (hs.stage j x₀ x hx₀ hst hx).mono hc.le
  · intro p j
    rw [hmember, hs.member]
    by_cases hj : j = id
    · subst hj
      simp [hr, hnotq]
    · simp [hothers j hj, hj]
  · exact hlock
  · exact hcounter
  · exact hfresh
  · intro recipient
    cases hc with
    | sent _ hlt =>
      by_cases he : recipient = r.recipient
      · subst he
        rw [Function.update_self]
        omega
      · rw [Function.update_of_ne he]
        exact hs.le recipient
    | deferred => exact hs.le recipient
  · exact hs.sent_charge hjob hq hr hc hothers
  · intro i j x y hx hy hst hst' hat
    have hi : i ≠ id := by
      rintro rfl
      cases hr.symm.trans hx
      exact hnotq hst
    have hj : j ≠ id := by
      rintro rfl
      cases hr.symm.trans hy
      cases hc with
      | sent h => cases h.symm.trans hst'
      | deferred _ hlt => exact absurd (hat.trans (dueBy_le hgap K)) (not_le.mpr hlt)
    rw [hothers i hi] at hx
    rw [hothers j hj] at hy
    exact hs.ahead i j x y hx hy hst hst' hat
  · exact hs.order_charge hjob hq hfirst hr ht hc hothers

/-- What an iteration makes of the job it has claimed. -/
structure Served (cfg : Settings) (gap : Time) (K : Int) (used : String → ℕ) (sh sh' : Shared)
    (claimed : Option JobId) (used' : String → ℕ) : Prop where
  row : ∀ id, claimed = some id → ∃ job r, sh.db.row id = some job ∧ job.status = .queued ∧
    sh'.db.row id = some r ∧ Charged cfg gap K used r used'
  others : ∀ j, claimed ≠ some j → sh'.db.row j = sh.db.row j

/-- `claim_next_job` has taken `job` from `sh`, and left `sh'`. -/
structure TakenUp (sh sh' : Shared) (id : JobId) (job : Job) : Prop where
  row : sh.db.row id = some job
  queued : job.status = .queued
  first : ∀ j r, sh.db.row j = some r → r.status = .queued → job.priority.rank ≤ r.priority.rank
  others : ∀ j, j ≠ id → sh'.db.row j = sh.db.row j
  member : ∀ p j, j ∈ sh'.redis.queue p ↔ j ∈ sh.redis.queue p ∧ j ≠ id
  lock : ∀ j, j ≠ id → sh'.redis.lock j = none
  counter : sh'.redis.counter = sh.redis.counter

/-- Nothing was there to claim. -/
theorem Serving.idle (hs : Serving cfg gap K db used sh)
    (h : claimNextJob cfg w (sh.setClocks t u) = some (sh', none)) :
    Serving cfg gap K db used sh' ∧ Served cfg gap K used sh sh' none used := by
  obtain ⟨hlock, hmember, -⟩ := (hs.setClocks t u).claim h
  have he := claimFrom_effect h
  have hjobs : sh'.db.jobs = (sh.setClocks t u).db.jobs := congrArg Db.jobs he.db
  refine ⟨hs.congr hjobs (fun p j => ?_) (fun j => hlock j (by simp)) he.counter,
    fun id hid => (by cases hid), fun j _ => he.row.1 j (by simp)⟩
  rw [hmember]
  exact and_iff_left (by simp)

/-- The job that was taken has been charged, and its lock released. -/
theorem Serving.finished (hs : Serving cfg gap K db used sh) (hgap : gap + second ≤ hour)
    {sh₁ : Shared} {rd : Redis} {used' : String → ℕ} {job r : Job} (ht : TakenUp sh sh₁ id job)
    (hf : Finished sh₁ sh' rd id r) (hticket : r.ticket = job.ticket)
    (hc : Charged cfg gap K used r used') (hrd : rd = { sh₁.redis with counter := rd.counter })
    (hlast : Lasting (rd.counter ⟨job.recipient, K⟩) (windowClose ⟨job.recipient, K⟩)
      (used' job.recipient))
    (hkept : ∀ key, key ≠ ⟨job.recipient, K⟩ → rd.counter key = sh₁.redis.counter key) :
    Serving cfg gap K db used' sh' ∧ Served cfg gap K used sh sh' (some id) used' := by
  have hrows : ∀ j, j ≠ id → sh'.db.row j = sh.db.row j :=
    fun j hj => (hf.others j hj).trans (ht.others j hj)
  have hqueue : sh'.redis.queue = sh₁.redis.queue := by
    rw [hf.redis, hrd]
    rfl
  have hcount : sh'.redis.counter = rd.counter := by
    rw [hf.redis]
    rfl
  refine ⟨hs.charge hgap ht.row ht.queued ht.first hf.row hticket hc hrows
    (fun p j => ?_) (fun j => ?_) (fun recipient => ?_) (fun recipient k hk => ?_), ?_, ?_⟩
  · rw [hqueue]
    exact ht.member p j
  · rw [hf.redis, hrd]
    show Function.update sh₁.redis.lock id none j = none
    by_cases hj : j = id
    · rw [hj, Function.update_self]
    · rw [Function.update_of_ne hj]
      exact ht.lock j hj
  · rw [hcount]
    by_cases he : recipient = job.recipient
    · rwa [he]
    · rw [hkept _ (fun hc => he (congrArg WindowKey.recipient hc)), ht.counter,
        hc.other (fun hr => he (hr.trans (recipient_of_ticket hticket)))]
      exact hs.counter recipient
  · rw [hcount, hkept _ (fun hc => absurd (congrArg WindowKey.hour hc) (ne_of_gt hk)), ht.counter]
    exact hs.fresh recipient k hk
  · rintro _ ⟨⟩
    exact ⟨job, r, ht.row, ht.queued, hf.row, hc⟩
  · exact fun j hj => hrows j (fun hc => hj (congrArg some hc.symm))

end NotifyQueue
