import NotifyQueue.Job.Tick
import NotifyQueue.Model.Calls

/-!
# What a whole call does

`claim_next_job` looks at the first entry of each queue, in the order of the
priorities, and returns the first of these that can be claimed
(`claimFrom_result`): an entry it rejects is dropped and the next queue is tried.

A call is the same as the `await`s of its process one after another
(`path_of_claimFrom`, `within_of_promote`, `ticks_of_requeue`).
-/

namespace NotifyQueue

open KeyedTable

/-- The entry that `ZPOPMIN` takes. -/
def Redis.first? (rd : Redis) (p : Priority) : Option JobId := (rd.zpopmin p).map Prod.fst

/-- A popped job gets through the gates: its lock is free and its row `queued`. -/
def Shared.passes (sh : Shared) (id : JobId) : Bool :=
  (sh.redis.lock? id).isNone && (sh.db.row id).any (fun r => decide (r.status = .queued))

variable {cfg : Settings} {w : WorkerId} {sh sh' : Shared} {rd rd' : Redis} {p q : Priority}
  {id J : JobId}

theorem passes_iff : sh.passes id = true ↔
    sh.redis.lock? id = none ∧ ∃ r, sh.db.row id = some r ∧ r.status = .queued := by
  rw [Shared.passes, Bool.and_eq_true, Option.isNone_iff_eq_none, Option.any_eq_true]
  simp only [decide_eq_true_eq]

/-! ### The gates -/

theorem zpopmin_queue (h : rd.zpopmin p = some (id, rd')) (hq : q ≠ p) :
    rd'.queue q = rd.queue q := by
  obtain ⟨z, -, rfl⟩ := Redis.zpopmin_eq_some.mp h
  exact Function.update_of_ne hq _ _

theorem first?_eq_none : rd.first? p = none ↔ rd.zpopmin p = none := Option.map_eq_none_iff

theorem first?_of_zpopmin (h : rd.zpopmin p = some (id, rd')) : rd.first? p = some id := by
  rw [Redis.first?, h]
  rfl

theorem first?_congr (h : rd'.queue p = rd.queue p) : rd'.first? p = rd.first? p := by
  simp only [Redis.first?, Redis.zpopmin, h]
  split <;> rfl

theorem not_mem_of_zpopmin (h : rd.zpopmin p = some (id, rd')) : id ∉ rd'.queue p := by
  obtain ⟨z, hz, rfl⟩ := Redis.zpopmin_eq_some.mp h
  simp only [Function.update_self]
  exact SortedSet.not_mem_of_popMin hz

theorem lock?_zpopmin (h : rd.zpopmin p = some (id, rd')) (J : JobId) :
    rd'.lock? J = rd.lock? J := by
  rw [Redis.zpopmin_frame h]
  rfl

theorem setLock_lock {ttl : Int} (h : rd.setLock id w ttl = some rd') (hJ : J ≠ id) :
    rd'.lock J = rd.lock J := by
  obtain ⟨-, rfl⟩ := Redis.setLock_eq_some.mp h
  exact Function.update_of_ne hJ _ _

theorem lock?_undone {ttl : Int} (h : rd.setLock id w ttl = some rd') (J : JobId) :
    (rd'.deleteLock id).lock? J = rd.lock? J := by
  obtain ⟨hfree, rfl⟩ := Redis.setLock_eq_some.mp h
  by_cases hJ : J = id
  · subst hJ
    rw [hfree, Redis.lock?, Redis.deleteLock]
    simp
  · simp [Redis.lock?, Redis.deleteLock, Function.update_of_ne hJ]

/-- The status gate lets a job through exactly when its row is `queued`. -/
theorem claim_eq_none {db : Db} {now : Time} :
    db.fetchrow (claimQueuedJob now w id) = none ↔
      ¬ ∃ r, db.row id = some r ∧ r.status = .queued := by
  have hk : ∀ r : Job, (claimQueuedJob now w id).applies r = true →
      Keyed.key r = id := fun r hr => (by
        simp only [claimQueuedJob, Bool.and_eq_true, decide_eq_true_eq] at hr
        exact hr.1)
  have hhit : db.jobs.hits (claimQueuedJob now w id) = true ↔
      ∃ r, db.row id = some r ∧ r.status = .queued := by
    rw [Table.hits_iff_of_key hk]
    refine exists_congr fun r => and_congr_right fun hr => ?_
    have hid : r.id = id := Table.key_of_find? hr
    simp [claimQueuedJob, hid]
  rw [← hhit, Db.fetchrow]
  split <;> simp_all

/-! ### Batches and clocks -/

/-- **What a batch adds to a queue**: the jobs of the batch with the priority of
the queue. -/
theorem mem_enqueue_returning {score : Scoring} {db : Db} {ids : List JobId} :
    id ∈ (rd.enqueue (db.returning Job.queueRow ids) score).queue p ↔
      (id ∈ ids ∧ ∃ r, db.row id = some r ∧ r.priority = p) ∨ id ∈ rd.queue p := by
  rw [Redis.mem_enqueue]
  refine or_congr_left ⟨?_, ?_⟩
  · rintro ⟨row, hrow, hp, rfl⟩
    obtain ⟨j, hj, r, hr, rfl⟩ := mem_returning.mp hrow
    obtain rfl : r.id = j := Table.key_of_find? hr
    exact ⟨hj, r, hr, hp⟩
  · rintro ⟨hid, r, hr, hp⟩
    exact ⟨r.queueRow, mem_returning.mpr ⟨id, hid, r, hr, rfl⟩, hp, Table.key_of_find? hr⟩

theorem enqueue_batch (score : Scoring) (db : Db) (ids : List JobId) :
    (if ids.isEmpty then rd else rd.enqueue (db.returning Job.queueRow ids) score) =
      rd.enqueue (db.returning Job.queueRow ids) score := by
  split
  · rename_i hids
    rw [List.isEmpty_iff.mp hids]
    rfl
  · rfl

/-- **What a promotion does**: it updates its batch and adds it to the queues. -/
theorem promote_eq {score : Scoring} {ids ids' : List JobId}
    (h : promoteDueJobs cfg ids sh score = some (sh', ids')) :
    promotes cfg sh.db [] ids = true ∧ sh' = ⟨sh.db.update (promoteIds sh.db.now ids),
      sh.redis.enqueue ((sh.db.update (promoteIds sh.db.now ids)).returning Job.queueRow ids)
        score⟩ := by
  simp only [promoteDueJobs, enqueue_batch] at h
  split at h
  · cases h
    exact ⟨‹_›, rfl⟩
  · cases h

/-- **What a sweep does**: it adds its batch to the queues. -/
theorem requeue_eq {ids ids' : List JobId}
    (h : requeueStaleQueuedJobs cfg ids sh = some (sh', ids')) :
    requeues cfg sh.db ids = true ∧
      sh' = { sh with redis := sh.redis.enqueue (sh.db.returning Job.queueRow ids) } := by
  simp only [requeueStaleQueuedJobs, enqueue_batch] at h
  split at h
  · cases h
    exact ⟨‹_›, rfl⟩
  · cases h

theorem wait_eq {t u : Time} (h : sh.wait t u = some sh') :
    sh.db.now ≤ t ∧ sh' = sh.setClocks t u := by
  unfold Shared.wait at h
  split at h
  · cases h
    exact ⟨‹_›, rfl⟩
  · cases h

/-! ### `claim_next_job` -/

/-- The first entry of `p` is `id`, and it has been popped between `sh` and `sh₁`. -/
def Popped (sh sh₁ : Shared) (p : Priority) (id : JobId) : Prop :=
  ∃ rd, sh.redis.zpopmin p = some (id, rd) ∧ sh₁.redis.queue = rd.queue

theorem Popped.first? (h : Popped sh sh' p id) : sh.redis.first? p = some id := by
  obtain ⟨rd, hz, -⟩ := h
  exact first?_of_zpopmin hz

theorem Popped.queue (h : Popped sh sh' p id) (hq : q ≠ p) :
    sh'.redis.queue q = sh.redis.queue q := by
  obtain ⟨rd, hz, hqueue⟩ := h
  rw [hqueue, zpopmin_queue hz hq]

theorem Popped.gone (h : Popped sh sh' p id) : id ∉ sh'.redis.queue p := by
  obtain ⟨rd, hz, hqueue⟩ := h
  rw [hqueue]
  exact not_mem_of_zpopmin hz

theorem Popped.mem (h : Popped sh sh' p id) (hJ : J ∈ sh.redis.queue p) :
    J = id ∨ J ∈ sh'.redis.queue p := by
  obtain ⟨rd, hz, hqueue⟩ := h
  rw [hqueue]
  exact Redis.mem_zpopmin hz hJ

/-- What `claim_next_job` does with the queue of `p`, before it tries those of `rest`. -/
inductive FirstQueue (cfg : Settings) (w : WorkerId) (sh sh' : Shared) (p : Priority)
    (rest : List Priority) : Option JobId → Prop
  | empty {r : Option JobId} : sh.redis.first? p = none →
      claimFrom cfg w rest sh = some (sh', r) → FirstQueue cfg w sh sh' p rest r
  | skip {sh₁ : Shared} {id : JobId} {r : Option JobId} : Popped sh sh₁ p id →
      sh.passes id = false → sh₁.passes = sh.passes →
      claimFrom cfg w rest sh₁ = some (sh', r) → FirstQueue cfg w sh sh' p rest r
  | take {id : JobId} : Popped sh sh' p id → sh.passes id = true →
      (∀ j, j ≠ id → sh'.redis.lock j = sh.redis.lock j ∧ sh'.db.row j = sh.db.row j) →
      FirstQueue cfg w sh sh' p rest (some id)

/-- **One queue**: its first entry is dropped or claimed, as it passes the gates. -/
theorem claimFrom_cons {rest : List Priority} {r : Option JobId}
    (h : claimFrom cfg w (p :: rest) sh = some (sh', r)) : FirstQueue cfg w sh sh' p rest r := by
  rw [claimFrom] at h
  split at h
  · rename_i hz
    exact .empty (first?_eq_none.mpr hz) h
  · rename_i id popped hz
    have hlock := lock?_zpopmin hz
    split at h
    · cases h
    · split at h
      · -- the lock is held
        rename_i hs
        refine .skip ⟨popped, hz, rfl⟩ ?_ ?_ h
        · rw [← Bool.not_eq_true, passes_iff, ← hlock]
          exact fun hc => Redis.setLock_eq_none.mp hs hc.1
        · funext J
          simp only [Shared.passes, hlock]
      · rename_i locked hs
        have hqueue : locked.queue = popped.queue := by rw [Redis.setLock_frame hs]
        split at h
        · -- the row is not `queued`
          rename_i hf
          refine .skip ⟨popped, hz, hqueue⟩ ?_ ?_ h
          · rw [← Bool.not_eq_true, passes_iff]
            exact fun hc => claim_eq_none.mp hf hc.2
          · funext J
            simp only [Shared.passes, lock?_undone hs, hlock]
        · rename_i db hf
          cases h
          refine .take ⟨popped, hz, hqueue⟩ ?_ (fun j hj => ⟨?_, ?_⟩)
          · rw [passes_iff, ← hlock]
            refine ⟨?_, ?_⟩
            · exact (Redis.setLock_eq_some.mp hs).1
            · by_contra hq
              cases (claim_eq_none.mpr hq).symm.trans hf
          · rw [setLock_lock hs hj, Redis.zpopmin_frame hz]
          · obtain ⟨-, -, -, -, hrow, -⟩ := row_of_fetchrow (fun r hr => by
              simp only [claimQueuedJob, Bool.and_eq_true, decide_eq_true_eq] at hr
              exact hr.1) hf
            exact hrow j hj

/-- The queue of `p` has no first entry that can be claimed. -/
def Shared.Rejects (sh : Shared) (p : Priority) : Prop :=
  ∀ id, sh.redis.first? p = some id → sh.passes id = false

/-- The first entry of `p` has been dropped, and nothing else has changed that the
other queues depend on. -/
structure Skipped (sh sh' : Shared) (p : Priority) : Prop where
  queue : ∀ q, q ≠ p → sh'.redis.queue q = sh.redis.queue q
  passes : sh'.passes = sh.passes

theorem Skipped.first? (h : Skipped sh sh' p) (hq : q ≠ p) :
    sh'.redis.first? q = sh.redis.first? q := first?_congr (h.queue q hq)

theorem Skipped.rejects (h : Skipped sh sh' p) (hq : q ≠ p) : sh'.Rejects q ↔ sh.Rejects q := by
  rw [Shared.Rejects, Shared.Rejects, h.first? hq, h.passes]

/-- What `claim_next_job` returns for the queues `ps`: the first of the first
entries that can be claimed, and it has been taken out of its queue. -/
inductive ClaimResult (sh sh' : Shared) (ps : List Priority) : Option JobId → Prop
  | none : (∀ q ∈ ps, sh.Rejects q) → ClaimResult sh sh' ps none
  | some (before after : List Priority) {p : Priority} {id : JobId} :
      ps = before ++ p :: after → (∀ q ∈ before, sh.Rejects q) →
      sh.redis.first? p = some id → sh.passes id = true → id ∉ sh'.redis.queue p →
      ClaimResult sh sh' ps (some id)

/-- A queue is skipped, and the rest of the loop goes on. -/
theorem ClaimResult.skip {sh₁ : Shared} {rest : List Priority} {r : Option JobId}
    (hp : p ∉ rest) (hrej : sh.Rejects p) (h₁ : Skipped sh sh₁ p)
    (h : ClaimResult sh₁ sh' rest r) : ClaimResult sh sh' (p :: rest) r := by
  have hne : ∀ q ∈ rest, q ≠ p := by
    rintro q hq rfl
    exact hp hq
  cases h with
  | none hall =>
    refine .none (fun q hq => ?_)
    rcases List.mem_cons.mp hq with rfl | hq
    · exact hrej
    · exact (h₁.rejects (hne q hq)).mp (hall q hq)
  | some before after hps hbefore hfirst hpasses hgone =>
    subst hps
    rw [h₁.first? (hne _ (by simp))] at hfirst
    rw [h₁.passes] at hpasses
    refine .some (p :: before) after rfl (fun q hq => ?_) hfirst hpasses hgone
    rcases List.mem_cons.mp hq with rfl | hq
    · exact hrej
    · exact (h₁.rejects (hne q (by simp [hq]))).mp (hbefore q hq)

/-- **What `claim_next_job` does.** -/
theorem claimFrom_result {ps : List Priority} {r : Option JobId} (hn : ps.Nodup)
    (h : claimFrom cfg w ps sh = some (sh', r)) : ClaimResult sh sh' ps r := by
  induction ps generalizing sh with
  | nil =>
    cases h
    exact .none (by simp)
  | cons p rest ih =>
    obtain ⟨hp, hn⟩ := List.nodup_cons.mp hn
    cases claimFrom_cons h with
    | empty hnone h =>
      refine .skip hp (fun id hid => ?_) ⟨fun _ _ => rfl, rfl⟩ (ih hn h)
      cases hnone.symm.trans hid
    | skip hpop hno hpasses h =>
      refine .skip hp (fun id hid => ?_) ⟨fun q => hpop.queue, hpasses⟩ (ih hn h)
      cases hpop.first?.symm.trans hid
      exact hno
    | take hpop hpass _ => exact .some [] rest rfl (by simp) hpop.first? hpass hpop.gone

/-- **One entry a queue**: a call drops the first entry of a queue, or leaves the
queue alone. -/
theorem claimFrom_queue {ps : List Priority} {r : Option JobId} (hn : ps.Nodup)
    (h : claimFrom cfg w ps sh = some (sh', r)) :
    (∀ p, sh'.redis.queue p = sh.redis.queue p ∨ ∃ id, sh.redis.first? p = some id ∧
      ∀ J ∈ sh.redis.queue p, J = id ∨ J ∈ sh'.redis.queue p) ∧
    ∀ p, p ∉ ps → sh'.redis.queue p = sh.redis.queue p := by
  induction ps generalizing sh with
  | nil =>
    cases h
    exact ⟨fun _ => Or.inl rfl, fun _ _ => rfl⟩
  | cons p rest ih =>
    obtain ⟨hp, hn⟩ := List.nodup_cons.mp hn
    have hrest : ∀ q, q ∉ p :: rest → q ≠ p ∧ q ∉ rest := fun q hq => by simpa using hq
    cases claimFrom_cons h with
    | empty hnone h =>
      obtain ⟨hdrop, hsame⟩ := ih hn h
      exact ⟨hdrop, fun q hq => hsame q (hrest q hq).2⟩
    | @skip sh₁ id r hpop hno hpasses h =>
      obtain ⟨hdrop, hsame⟩ := ih hn h
      refine ⟨fun q => ?_, fun q hq => ?_⟩
      · by_cases hne : q = p
        · subst hne
          refine Or.inr ⟨id, hpop.first?, fun J hJ => ?_⟩
          rw [hsame q hp]
          exact hpop.mem hJ
        · have hq := hdrop q
          rwa [first?_congr (hpop.queue hne), hpop.queue hne] at hq
      · rw [hsame q (hrest q hq).2, hpop.queue (hrest q hq).1]
    | @take id hpop hpass _ =>
      refine ⟨fun q => ?_, fun q hq => hpop.queue (hrest q hq).1⟩
      by_cases hne : q = p
      · subst hne
        exact Or.inr ⟨id, hpop.first?, fun J hJ => hpop.mem hJ⟩
      · exact Or.inl (hpop.queue hne)

theorem claimFrom_returns (hl : 0 < cfg.jobLockTtlSeconds) (ps : List Priority) (sh : Shared) :
    ∃ sh' r, claimFrom cfg w ps sh = some (sh', r) := by
  induction ps generalizing sh with
  | nil => exact ⟨sh, none, rfl⟩
  | cons p rest ih =>
    rw [claimFrom]
    split
    · exact ih sh
    · rw [if_neg (not_le.mpr hl)]
      split
      · exact ih _
      · split
        · exact ih _
        · exact ⟨_, _, rfl⟩

theorem claimFrom_empty {ps : List Priority} (h : ∀ p ∈ ps, sh.redis.first? p = none) :
    claimFrom cfg w ps sh = some (sh, none) := by
  induction ps with
  | nil => rfl
  | cons p rest ih =>
    rw [claimFrom, first?_eq_none.mp (h p List.mem_cons_self)]
    exact ih (fun q hq => h q (List.mem_cons_of_mem _ hq))

theorem first?_of_refused (hl : cfg.jobLockTtlSeconds ≤ 0) {ps : List Priority}
    {r : Option JobId} (h : claimFrom cfg w ps sh = some (sh', r)) :
    ∀ p ∈ ps, sh.redis.first? p = none := by
  induction ps with
  | nil => simp
  | cons p rest ih =>
    intro q hq
    rw [claimFrom] at h
    split at h
    · rename_i hz
      rcases List.mem_cons.mp hq with rfl | hq
      · exact first?_eq_none.mpr hz
      · exact ih h q hq
    · rw [if_pos hl] at h
      cases h

/-! ### Calls and `await`s -/

/-- Only worker `w` runs. -/
def onlyWorker (w : WorkerId) (_ : State) : Action → Bool
  | .worker v (.run _) => decide (v = w)
  | _ => false

/-- Where `worker_loop` is when `claim_next_job` has returned. -/
def WorkerPc.ofClaim : Option JobId → WorkerPc
  | some id => .fetching id
  | none => .popping []

theorem step_of_workerNext {s : State} {env : Env} {pc' : WorkerPc} {es : List Event}
    (h : workerNext cfg w env s.toShared (s.workers w).pc = some (sh', pc', es)) :
    ∃ t, t.toShared = sh' ∧ (t.workers w).pc = pc' ∧
      step cfg s (.worker w (.run env)) = some (t, es) := by
  refine ⟨(s.setShared sh').setWorker w ((s.workers w).goto pc'), rfl, ?_, ?_⟩
  · rw [State.setWorker_workers, Function.update_self]
    rfl
  · exact Option.map_eq_some_iff.mpr ⟨(sh', (s.workers w).goto pc', es),
      Option.map_eq_some_iff.mpr ⟨(sh', pc', es), h, rfl⟩, rfl⟩

theorem path_of_workerNext {s : State} {env : Env} {pc' : WorkerPc} {es : List Event}
    (h : workerNext cfg w env s.toShared (s.workers w).pc = some (sh', pc', es)) :
    ∃ t, t.toShared = sh' ∧ (t.workers w).pc = pc' ∧
      Lts.Path (system cfg) (onlyWorker w) s es t := by
  obtain ⟨t, hsh, hpc, hs⟩ := step_of_workerNext h
  exact ⟨t, hsh, hpc, Lts.Path.single (S := system cfg) (a := .worker w (.run env))
    (by simp [onlyWorker]) hs⟩

section
variable {ok : State → Action → Bool} (env : Env) {P : State → Prop}

/-- A run of the worker under a guard that lets it through wherever `P` holds. -/
theorem guarded_path_of_workerNext (hok : ∀ u, P u → ok u (.worker w (.run env)) = true)
    (hP : ∀ u v es, P u → step cfg u (.worker w (.run env)) = some (v, es) → P v)
    {s : State} (hs : P s) {pc pc' : WorkerPc} {es : List Event} (hpc : (s.workers w).pc = pc)
    (h : workerNext cfg w env s.toShared pc = some (sh', pc', es)) :
    ∃ t, t.toShared = sh' ∧ (t.workers w).pc = pc' ∧ P t ∧ Lts.Path (system cfg) ok s es t := by
  subst hpc
  obtain ⟨t, hsh, hpc, hstep⟩ := step_of_workerNext h
  exact ⟨t, hsh, hpc, hP s t es hs hstep,
    Lts.Path.single (S := system cfg) (a := .worker w (.run env)) (hok s hs) hstep⟩

/-- **`claim_next_job` is the `await`s of its worker**, one after another, under any such
guard. -/
theorem guarded_path_of_claimFrom (hok : ∀ u, P u → ok u (.worker w (.run env)) = true)
    (hP : ∀ u v es, P u → step cfg u (.worker w (.run env)) = some (v, es) → P v)
    {ps : List Priority} {s : State} (hs : P s) {r : Option JobId}
    (h : claimFrom cfg w ps s.toShared = some (sh', r)) (hpc : (s.workers w).pc = .popping ps) :
    ∃ t h, Lts.Path (system cfg) ok s h t ∧ t.toShared = sh' ∧ (t.workers w).pc = .ofClaim r ∧
      P t := by
  have hnext : ∀ {u : State} {sh : Shared} {pc pc' : WorkerPc} {es : List Event}, P u →
      (u.workers w).pc = pc → workerNext cfg w env u.toShared pc = some (sh, pc', es) →
      ∃ t, t.toShared = sh ∧ (t.workers w).pc = pc' ∧ P t ∧ Lts.Path (system cfg) ok u es t :=
    fun hu hpc hn => guarded_path_of_workerNext env hok hP hu hpc hn
  induction ps generalizing s with
  | nil =>
    cases h
    exact ⟨s, [], .refl, rfl, hpc, hs⟩
  | cons p rest ih =>
    rw [claimFrom] at h
    split at h
    · rename_i hz
      obtain ⟨t, hsh, htpc, ht, hp⟩ := hnext hs hpc (by simp only [workerNext, hz]; rfl)
      rw [← hsh] at h
      obtain ⟨u, k, hq, hu⟩ := ih ht h htpc
      exact ⟨u, _, hp.trans hq, hu⟩
    · rename_i id popped hz
      obtain ⟨t, hsh, htpc, ht, hp⟩ := hnext hs hpc (by simp only [workerNext, hz]; rfl)
      split at h
      · cases h
      · rename_i hl
        split at h
        · rename_i hset
          obtain ⟨t', hsh', htpc', ht', hp'⟩ := hnext ht htpc (by
            simp only [workerNext, hsh, if_neg hl, hset]
            rfl)
          rw [← hsh'] at h
          obtain ⟨u, k, hq, hu⟩ := ih ht' h htpc'
          exact ⟨u, _, (hp.trans hp').trans hq, hu⟩
        · rename_i locked hset
          obtain ⟨t', hsh', htpc', ht', hp'⟩ := hnext ht htpc (by
            simp only [workerNext, hsh, if_neg hl, hset]
            rfl)
          split at h
          · rename_i hf
            obtain ⟨x, hx, hxpc, hx', hp₂⟩ := hnext ht' htpc' (by
              simp only [workerNext, hsh', hf]
              rfl)
            obtain ⟨y, hy, hypc, hy', hp₃⟩ := hnext hx' hxpc (by
              simp only [workerNext, hx]
              rfl)
            rw [← hy] at h
            obtain ⟨u, k, hq, hu⟩ := ih hy' h hypc
            exact ⟨u, _, (((hp.trans hp').trans hp₂).trans hp₃).trans hq, hu⟩
          · rename_i db hf
            cases h
            obtain ⟨x, hx, hxpc, hx', hp₂⟩ := hnext ht' htpc' (by
              simp only [workerNext, hsh', hf]
              rfl)
            exact ⟨x, _, (hp.trans hp').trans hp₂, hx, hxpc, hx'⟩

end

theorem path_of_claimFrom {ps : List Priority} {s : State} {r : Option JobId}
    (h : claimFrom cfg w ps s.toShared = some (sh', r)) (hpc : (s.workers w).pc = .popping ps) :
    ∃ t h, Lts.Path (system cfg) (onlyWorker w) s h t ∧ t.toShared = sh' ∧
      (t.workers w).pc = .ofClaim r := by
  have honly : ∀ u, onlyWorker w u (.worker w (.run {})) = true := fun u => by simp [onlyWorker]
  obtain ⟨t, k, hp, hsh, hpc, -⟩ := guarded_path_of_claimFrom {} (P := fun _ => True)
    (fun u _ => honly u) (fun _ _ _ _ _ => trivial) trivial h hpc
  exact ⟨t, k, hp, hsh, hpc⟩

/-- **`promote_due_jobs` is the first part of a tick** of its scheduler. -/
theorem within_of_promote {k : SchedulerId} {s : State} {ids ids' : List JobId}
    (h : promoteDueJobs cfg ids s.toShared = some (sh', ids')) (hpc : s.schedulers k = .promoting) :
    ∃ t, Within cfg k s t ∧ t.toShared = sh' ∧ t.schedulers k = .recovering := by
  obtain ⟨hids, rfl⟩ := promote_eq h
  have hpart := promotion_part s.toShared hids
  rw [← hpc] at hpart
  obtain ⟨t, hsh, ht, hw⟩ := within_of_part hpart
  exact ⟨t, hw, hsh, ht⟩

/-- **`requeue_stale_queued_jobs` is the end of a tick** of its scheduler. -/
theorem ticks_of_requeue {k : SchedulerId} {s : State} {ids ids' : List JobId}
    (h : requeueStaleQueuedJobs cfg ids s.toShared = some (sh', ids'))
    (hpc : s.schedulers k = .requeuing) : ∃ t, Ticks cfg k 1 s t ∧ t.toShared = sh' := by
  obtain ⟨hids, rfl⟩ := requeue_eq h
  obtain ⟨t, hsh, ht⟩ := ticks_of_requeues hids hpc
  exact ⟨t, ht, hsh⟩

end NotifyQueue
