import NotifyQueue.Job.Calls

/-!
# The requeue sweep

A call of `requeue_stale_queued_jobs` adds the rows of one batch to their queues
and leaves the table as it is, so the rows it has added are stale candidates for
the next call as they were for this one, and the database may pick them again.
A backlog of more than one batch is swept by every choice of the database only
if there was nothing to sweep (`sweep_reaches`).
-/

namespace NotifyQueue

open KeyedTable

/-- Calls of `requeue_stale_queued_jobs` one after another, each with the answer of
the database and the clocks after it. -/
def sweeps (cfg : Settings) : List (List JobId × Time × Time) → Shared → Option Shared
  | [], sh => some sh
  | (ids, t, u) :: rest, sh =>
    (requeueStaleQueuedJobs cfg ids sh).bind (fun (sh', _) =>
      (sh'.wait t u).bind (sweeps cfg rest))

/-- The rows to be requeued. -/
def Db.stranded (cfg : Settings) (db : Db) : List Job :=
  db.jobs.rows.filter (staleQueued cfg db.now)

/-- The number of batches that `n` rows make. -/
def batches (cfg : Settings) (n : Nat) : Nat :=
  (n + cfg.schedulerBatchSize.toNat - 1) / cfg.schedulerBatchSize.toNat

/-- As many calls as the stranded rows make batches put every one of them into its
queue, whatever the database picks. -/
def SweepReaches (cfg : Settings) (sh : Shared) : Prop :=
  (∃ calls sh', calls.length = batches cfg (sh.db.stranded cfg).length ∧
    sweeps cfg calls sh = some sh') ∧
  ∀ calls sh', calls.length = batches cfg (sh.db.stranded cfg).length →
    sweeps cfg calls sh = some sh' →
    ∀ r ∈ sh.db.stranded cfg, r.id ∈ sh'.redis.queue r.priority

variable {cfg : Settings} {sh sh' : Shared} {ids ids' : List JobId} {p : Priority} {id : JobId}

/-! ### One call -/

theorem requeue_effect (p : Priority) (id : JobId)
    (h : requeueStaleQueuedJobs cfg ids sh = some (sh', ids')) :
    requeues cfg sh.db ids = true ∧ sh'.db = sh.db ∧
      (id ∈ sh'.redis.queue p ↔
        (id ∈ ids ∧ ∃ r, sh.db.row id = some r ∧ r.priority = p) ∨ id ∈ sh.redis.queue p) := by
  obtain ⟨hq, rfl⟩ := requeue_eq h
  exact ⟨hq, rfl, mem_enqueue_returning⟩

/-- **A sweep takes nobody out of a queue.** -/
theorem mem_sweeps {calls : List (List JobId × Time × Time)}
    (h : sweeps cfg calls sh = some sh') (hmem : id ∈ sh.redis.queue p) :
    id ∈ sh'.redis.queue p := by
  induction calls generalizing sh with
  | nil =>
    cases h
    exact hmem
  | cons call rest ih =>
    obtain ⟨ids, t, u⟩ := call
    obtain ⟨⟨sh₁, ids'⟩, h₁, h⟩ := Option.bind_eq_some_iff.mp h
    obtain ⟨sh₂, h₂, h⟩ := Option.bind_eq_some_iff.mp h
    obtain ⟨-, -, hq⟩ := requeue_effect p id h₁
    obtain ⟨-, rfl⟩ := wait_eq h₂
    exact ih h (hq.mpr (Or.inr hmem))

/-! ### The same batch again and again -/

/-- The database may give the same answer any number of times, and nobody else is
ever added. -/
theorem sweeps_replicate (hq : requeues cfg sh.db ids = true) : ∀ n, ∃ calls sh',
    calls.length = n ∧ sweeps cfg calls sh = some sh' ∧
    ∀ p id, id ∉ ids → (id ∈ sh'.redis.queue p ↔ id ∈ sh.redis.queue p) := by
  intro n
  induction n generalizing sh with
  | zero => exact ⟨[], sh, rfl, rfl, fun _ _ _ => Iff.rfl⟩
  | succ n ih =>
    have h₁ : ∃ sh₁, requeueStaleQueuedJobs cfg ids sh = some (sh₁, ids) := by
      unfold requeueStaleQueuedJobs
      rw [if_pos hq]
      exact ⟨_, rfl⟩
    obtain ⟨sh₁, h₁⟩ := h₁
    have hdb : sh₁.db = sh.db := (requeue_effect .high 0 h₁).2.1
    have h₂ : sh₁.wait sh₁.db.now sh₁.redis.now = some sh₁ := if_pos le_rfl
    obtain ⟨calls, sh', hlen, hs, hmem⟩ := ih (by rwa [hdb])
    refine ⟨(ids, sh₁.db.now, sh₁.redis.now) :: calls, sh', ?_, ?_, fun p id hid => ?_⟩
    · rw [List.length_cons, hlen]
    · simp only [sweeps, h₁, h₂, Option.bind_some, hs]
    · rw [hmem p id hid, (requeue_effect p id h₁).2.2]
      simp [hid]

theorem requeues_of_sublist (hb : 1 ≤ cfg.schedulerBatchSize) {rows : List Job}
    (hsub : rows.Sublist (sh.db.stranded cfg))
    (hlen : rows.length = min cfg.schedulerBatchSize.toNat (sh.db.stranded cfg).length) :
    requeues cfg sh.db (rows.map Job.id) = true := by
  have hnodup : ((sh.db.stranded cfg).map Job.id).Nodup :=
    sh.db.jobs.nodup.sublist (List.filter_sublist.map _)
  simp only [requeues, Table.picks, Bool.and_eq_true, decide_eq_true_eq, List.all_eq_true,
    beq_iff_eq, List.length_map]
  refine ⟨by omega, ⟨hnodup.sublist (hsub.map _), fun id hid => ?_⟩, hlen⟩
  exact (hsub.map Job.id).subset hid

theorem length_others (cfg : Settings) (sh : Shared) (id : JobId) : (sh.db.stranded cfg).length ≤
    ((sh.db.stranded cfg).filter (fun r => decide (r.id ≠ id))).length + 1 := by
  have hnodup : ((sh.db.stranded cfg).map Job.id).Nodup :=
    sh.db.jobs.nodup.sublist (List.filter_sublist.map _)
  have hone : (sh.db.stranded cfg).countP (fun r => decide (r.id = id)) ≤ 1 := by
    have hcount := List.nodup_iff_count_le_one.mp hnodup id
    rw [List.count, List.countP_map] at hcount
    exact le_trans (List.countP_mono_left (fun r _ hr => by simpa using hr)) hcount
  have hsplit := List.length_eq_countP_add_countP (fun r : Job => decide (r.id = id))
    (l := sh.db.stranded cfg)
  rw [← List.countP_eq_length_filter]
  simp only [decide_eq_true_eq, ne_eq] at hsplit hone ⊢
  omega

/-! ### Exactly when -/

theorem batches_one (hb : 1 ≤ cfg.schedulerBatchSize) {n : Nat} (hn : 0 < n)
    (hle : (n : Int) ≤ cfg.schedulerBatchSize) : batches cfg n = 1 := by
  unfold batches
  rw [Nat.div_eq_iff (by omega)]
  omega

theorem exists_sweeps (hb : 1 ≤ cfg.schedulerBatchSize) (sh : Shared) (n : Nat) :
    ∃ calls sh', calls.length = n ∧ sweeps cfg calls sh = some sh' := by
  obtain ⟨calls, sh', hlen, hs, -⟩ := sweeps_replicate (requeues_of_sublist hb
    (List.take_sublist cfg.schedulerBatchSize.toNat (sh.db.stranded cfg)) List.length_take) n
  exact ⟨calls, sh', hlen, hs⟩

theorem reaches_of_fits (hb : 1 ≤ cfg.schedulerBatchSize)
    (hle : ((sh.db.stranded cfg).length : Int) ≤ cfg.schedulerBatchSize) :
    SweepReaches cfg sh := by
  refine ⟨exists_sweeps hb sh _, fun calls sh' hlen hs r hr => ?_⟩
  rw [batches_one hb (List.length_pos_of_mem hr) hle] at hlen
  obtain ⟨⟨ids, t, u⟩, rfl⟩ := List.length_eq_one_iff.mp hlen
  obtain ⟨⟨sh₁, ids'⟩, h₁, hs⟩ := Option.bind_eq_some_iff.mp hs
  obtain ⟨sh₂, h₂, hs⟩ := Option.bind_eq_some_iff.mp hs
  cases hs
  obtain ⟨hq, -, hmem⟩ := requeue_effect r.priority r.id h₁
  simp only [requeues, Bool.and_eq_true] at hq
  obtain ⟨-, rfl⟩ := wait_eq h₂
  refine hmem.mpr (Or.inl ⟨Table.mem_of_picks hq.2 ?_ hr, r, ?_, rfl⟩)
  · have hle' : (sh.db.stranded cfg).length ≤ cfg.schedulerBatchSize.toNat := by omega
    exact hle'
  · exact Table.find?_key_iff.mpr (List.mem_filter.mp hr).1

theorem fits_of_reaches (hb : 1 ≤ cfg.schedulerBatchSize) (h : SweepReaches cfg sh) {r : Job}
    (hr : r ∈ sh.db.stranded cfg) (hmem : r.id ∉ sh.redis.queue r.priority) :
    ((sh.db.stranded cfg).length : Int) ≤ cfg.schedulerBatchSize := by
  by_contra hlong
  let others := (sh.db.stranded cfg).filter (fun r' => decide (r'.id ≠ r.id))
  let batch := others.take cfg.schedulerBatchSize.toNat
  have hsub : batch.Sublist (sh.db.stranded cfg) :=
    (List.take_sublist _ _).trans List.filter_sublist
  have hlen : batch.length = min cfg.schedulerBatchSize.toNat (sh.db.stranded cfg).length := by
    have hothers : (sh.db.stranded cfg).length ≤ others.length + 1 := length_others cfg sh r.id
    rw [List.length_take]
    omega
  obtain ⟨calls, sh', hcalls, hs, hnone⟩ := sweeps_replicate (requeues_of_sublist hb hsub hlen)
    (batches cfg (sh.db.stranded cfg).length)
  have hout : r.id ∉ batch.map Job.id := by
    intro hin
    obtain ⟨r', hr', hid⟩ := List.mem_map.mp hin
    have := (List.mem_filter.mp ((List.take_sublist _ _).subset hr')).2
    exact of_decide_eq_true this hid
  exact hmem ((hnone r.priority r.id hout).mp (h.2 calls sh' hcalls hs r hr))

/-- **The sweep reaches every stranded job exactly when** they make one batch, or
none of them is missing from its queue. -/
theorem sweep_reaches (hb : 1 ≤ cfg.schedulerBatchSize) : SweepReaches cfg sh ↔
    ((sh.db.stranded cfg).length : Int) ≤ cfg.schedulerBatchSize ∨
      ∀ r ∈ sh.db.stranded cfg, r.id ∈ sh.redis.queue r.priority := by
  constructor
  · intro h
    by_cases hall : ∀ r ∈ sh.db.stranded cfg, r.id ∈ sh.redis.queue r.priority
    · exact Or.inr hall
    · simp only [not_forall] at hall
      obtain ⟨r, hr, hmem⟩ := hall
      exact Or.inl (fits_of_reaches hb h hr hmem)
  · rintro (hle | hall)
    · exact reaches_of_fits hb hle
    · exact ⟨exists_sweeps hb sh _, fun calls sh' _ hs r hr => mem_sweeps hs (hall r hr)⟩

/-- Jobs `7` and `8` are promoted, Redis loses its data, and the two rows become
stale. -/
def redisLost : List Action :=
  .createJob 7 plainJob :: promotion 0 7 ++ .createJob 8 plainJob :: promotion 1 8 ++
    [.redisFault (fun _ => SortedSet.empty) (fun _ => none) (fun _ => none), clock (31 * second)]

/-- With batches of two, one call is enough. -/
theorem sweep_reaches_batch : ∃ h s, Lts.Run (system { schedulerBatchSize := 2 }) always h s ∧
    (s.db.stranded { schedulerBatchSize := 2 }).length = 2 ∧
    SweepReaches { schedulerBatchSize := 2 } s.toShared := by
  obtain ⟨s, h, hr, hlen⟩ := Lts.run_of_replay (system { schedulerBatchSize := 2 }) always
    redisLost (fun p => (p.1.db.stranded { schedulerBatchSize := 2 }).length) 2 initial_empty
    (by decide +kernel)
  dsimp only at hlen
  exact ⟨h, s, hr, hlen, (sweep_reaches (by decide)).mpr (Or.inl (by rw [hlen]; decide))⟩

/-- With batches of one, the database may pick the same job twice. -/
theorem not_sweep_reaches : ∃ h s, Lts.Run (system { schedulerBatchSize := 1 }) always h s ∧
    ¬ SweepReaches { schedulerBatchSize := 1 } s.toShared := by
  obtain ⟨s, h, hr, hf⟩ := Lts.run_of_replay (system { schedulerBatchSize := 1 }) always
    redisLost (fun p =>
      ((p.1.db.stranded { schedulerBatchSize := 1 }).map (fun r => (r.id, r.priority)),
        decide (7 ∈ p.1.redis.queue .medium)))
    ([(7, .medium), (8, .medium)], false) initial_empty (by decide +kernel)
  obtain ⟨hrows, hmem⟩ := Prod.mk.inj hf
  have hlen := congrArg List.length hrows
  rw [List.length_map] at hlen
  refine ⟨h, s, hr, fun hreach => ?_⟩
  have h7 : ((7, .medium) : JobId × Priority) ∈
      (s.db.stranded { schedulerBatchSize := 1 }).map (fun r => (r.id, r.priority)) := by
    rw [hrows]
    exact List.mem_cons_self
  obtain ⟨r, hr7, he⟩ := List.mem_map.mp h7
  obtain ⟨hid, hp⟩ := Prod.mk.inj he
  have hfits := fits_of_reaches (by decide) hreach hr7 (by
    rw [hid, hp]
    exact of_decide_eq_false hmem)
  rw [hlen] at hfits
  exact absurd hfits (by decide)

end NotifyQueue
