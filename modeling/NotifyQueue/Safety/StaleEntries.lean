import Mathlib.Data.List.ReduceOption
import NotifyQueue.Safety.Drain

/-!
# Claims among stale entries

A queue may hold entries that cannot be claimed: of a job whose lock is held, of one
that is not queued any more, or a second entry of the same job.  `claim_next_job` drops
such an entry and goes on with the next queue, so a call can return `None` while a job
behind the entry waits.

It costs calls and no job.  A call never drops the entry of a job that can be claimed
without returning it (`claimFrom_keeps`), and it takes an entry away as long as there is
one (`claimFrom_shrinks`), so a worker that calls on gets to every job
(`claims_reach_every_job`).
-/

namespace NotifyQueue

open KeyedTable

variable {cfg : Settings} {w : WorkerId} {sh sh' : Shared} {p : Priority} {id j : JobId}
  {r : Option JobId} {ps : List Priority}

/-- The database after `claim_next_job` has returned `r`. -/
def Db.claim (db : Db) (w : WorkerId) : Option JobId → Db
  | none => db
  | some id => db.update (claimQueuedJob db.now w id)

/-- What `claim_next_job` does besides popping: it claims what it returns. -/
structure ClaimEffect (w : WorkerId) (sh sh' : Shared) (r : Option JobId) : Prop where
  db : sh'.db = sh.db.claim w r
  queued : ∀ id, r = some id → ∃ row, sh.db.row id = some row ∧ row.status = .queued
  now : sh'.redis.now = sh.redis.now
  counter : sh'.redis.counter = sh.redis.counter
  lock? : ∀ j, r ≠ some j → sh'.redis.lock? j = sh.redis.lock? j

/-! ### One call -/

theorem claim_row {db : Db} {now : Time} {db' : Db}
    (h : db.fetchrow (claimQueuedJob now w id) = some db') :
    ∃ row, db.row id = some row ∧ row.status = .queued := by
  by_contra hno
  cases (claim_eq_none.mpr hno).symm.trans h

theorem lock?_setLock {rd rd' : Redis} {ttl : Int} (h : rd.setLock id w ttl = some rd')
    (hj : j ≠ id) : rd'.lock? j = rd.lock? j := by
  obtain ⟨-, rfl⟩ := Redis.setLock_eq_some.mp h
  simp [Redis.lock?, Function.update_of_ne hj]

/-- **What a call claims**, and that it leaves everything else alone. -/
theorem claimFrom_effect (h : claimFrom cfg w ps sh = some (sh', r)) :
    ClaimEffect w sh sh' r := by
  induction ps generalizing sh with
  | nil =>
    cases h
    exact ⟨rfl, by simp, rfl, rfl, fun _ _ => rfl⟩
  | cons p rest ih =>
    rw [claimFrom] at h
    split at h
    · exact ih h
    · rename_i id popped hz
      have hpop := Redis.zpopmin_frame hz
      have hfree := lock?_zpopmin hz
      split at h
      · cases h
      · split at h
        · have he := ih h
          refine ⟨he.db, he.queued, ?_, ?_, fun j hj => (he.lock? j hj).trans (hfree j)⟩
          · rw [he.now, hpop]
          · rw [he.counter, hpop]
        · rename_i locked hs
          have hlock := Redis.setLock_frame hs
          split at h
          · -- the lock is set and deleted again
            have he := ih h
            refine ⟨he.db, he.queued, ?_, ?_, fun j hj => (he.lock? j hj).trans ?_⟩
            · rw [he.now, Redis.deleteLock, hlock, hpop]
            · rw [he.counter, Redis.deleteLock, hlock, hpop]
            · exact (lock?_undone hs j).trans (hfree j)
          · rename_i db hf
            cases h
            refine ⟨(fetchrow_eq_some.mp hf).2, ?_, ?_, ?_, fun j hj => ?_⟩
            · rintro _ ⟨⟩
              exact claim_row hf
            · rw [hlock, hpop]
            · rw [hlock, hpop]
            · rw [lock?_setLock hs (fun he => hj (congrArg some he.symm)), hfree]

theorem ClaimEffect.row (h : ClaimEffect w sh sh' r) :
    (∀ j, r ≠ some j → sh'.db.row j = sh.db.row j) ∧
    ∀ j, r = some j → ∃ row, sh.db.row j = some row ∧ row.status = .queued ∧
      sh'.db.row j = some ((claimQueuedJob sh.db.now w j).set row) := by
  refine ⟨fun j hj => ?_, fun j hj => ?_⟩
  · rw [h.db]
    cases r with
    | none => rfl
    | some id =>
      rw [Db.claim, row_update]
      cases hrow : sh.db.row j with
      | none => rfl
      | some row =>
        have hid : row.id = j := Table.key_of_find? hrow
        rw [Option.map_some, Update.apply_of_not]
        have hne : ¬ j = id := fun he => hj (congrArg some he.symm)
        simp [claimQueuedJob, hid, hne]
  · subst hj
    obtain ⟨row, hrow, hq⟩ := h.queued j rfl
    refine ⟨row, hrow, hq, ?_⟩
    have hid : row.id = j := Table.key_of_find? hrow
    rw [h.db, Db.claim, row_update, hrow, Option.map_some, Update.apply_of_applies]
    simp [claimQueuedJob, hq, hid]

/-- **No entry is dropped of a job that can be claimed**, unless it is returned. -/
theorem claimFrom_keeps (h : claimFrom cfg w ps sh = some (sh', r))
    (hpass : sh.passes j = true) (hj : j ∈ sh.redis.queue p) :
    r = some j ∨ j ∈ sh'.redis.queue p := by
  induction ps generalizing sh with
  | nil =>
    cases h
    exact Or.inr hj
  | cons q rest ih =>
    cases claimFrom_cons h with
    | empty _ h => exact ih h hpass hj
    | @skip sh₁ id _ hpop hno hpasses h =>
      refine ih h (by rw [hpasses, hpass]) ?_
      by_cases hq : p = q
      · subst hq
        rcases hpop.mem hj with rfl | hj
        · cases hno.symm.trans hpass
        · exact hj
      · rwa [hpop.queue hq]
    | @take id hpop =>
      by_cases hq : p = q
      · subst hq
        rcases hpop.mem hj with rfl | hj
        · exact Or.inl rfl
        · exact Or.inr hj
      · exact Or.inr (by rwa [hpop.queue hq])

/-- **A call takes an entry away** as long as there is one. -/
theorem claimFrom_shrinks (hn : ps.Nodup) (h : claimFrom cfg w ps sh = some (sh', r)) :
    (sh'.redis.waiting ps).length + (if sh.redis.waiting ps = [] then 0 else 1) ≤
      (sh.redis.waiting ps).length := by
  induction ps generalizing sh with
  | nil =>
    cases h
    simp [Redis.waiting]
  | cons q rest ih =>
    obtain ⟨hq, hn⟩ := List.nodup_cons.mp hn
    have hcons : ∀ rd : Redis, rd.waiting (q :: rest) = rd.members q ++ rd.waiting rest :=
      fun rd => List.flatMap_cons
    have hrest : ∀ sh₁ id, Popped sh sh₁ q id → sh₁.redis.waiting rest = sh.redis.waiting rest :=
      fun sh₁ id hpop => waiting_congr (fun q' hq' => hpop.queue (fun he => hq (he ▸ hq')))
    cases claimFrom_cons h with
    | empty hnone h =>
      have hnil := members_of_none (first?_eq_none.mp hnone)
      have hsame : sh'.redis.queue q = sh.redis.queue q := (claimFrom_queue hn h).2 q hq
      rw [hcons, hcons, members_congr hsame, hnil]
      exact ih hn h
    | @skip sh₁ id _ hpop hno hpasses h =>
      have hsame : sh'.redis.queue q = sh₁.redis.queue q := (claimFrom_queue hn h).2 q hq
      have hle := ih hn h
      rw [hrest sh₁ id hpop] at hle
      rw [hcons, hcons, members_congr hsame, hpop.members]
      simp only [List.cons_append, List.length_cons, List.length_append, reduceCtorEq, if_false]
      split at hle <;> omega
    | @take id hpop =>
      rw [hcons, hcons, hpop.members, hrest sh' id hpop]
      simp

theorem Popped.subset (h : Popped sh sh' p id) {q : Priority} (hj : j ∈ sh'.redis.queue q) :
    j ∈ sh.redis.queue q := by
  by_cases hq : q = p
  · subst hq
    obtain ⟨rd, hz, hqueue⟩ := h
    obtain ⟨z, hpop, rfl⟩ := Redis.zpopmin_eq_some.mp hz
    rw [hqueue] at hj
    simp only [Function.update_self] at hj
    exact (SortedSet.mem_of_popMin hpop).mpr (Or.inr hj)
  · rwa [← h.queue hq]

theorem claimFrom_subset (h : claimFrom cfg w ps sh = some (sh', r))
    (hj : j ∈ sh'.redis.queue p) : j ∈ sh.redis.queue p := by
  induction ps generalizing sh with
  | nil =>
    cases h
    exact hj
  | cons q rest ih =>
    cases claimFrom_cons h with
    | empty _ h => exact ih h
    | skip hpop _ _ h => exact hpop.subset (ih h)
    | take hpop => exact hpop.subset hj

theorem mem_of_claimFrom (hn : ps.Nodup) (h : claimFrom cfg w ps sh = some (sh', some j)) :
    ∃ p, j ∈ sh.redis.queue p := by
  cases claimFrom_result hn h with
  | some before after _ _ hfirst => exact ⟨_, mem_of_first? hfirst⟩

theorem ClaimEffect.passes (h : ClaimEffect w sh sh' r) (hj : r ≠ some j)
    (hpass : sh.passes j = true) : sh'.passes j = true := by
  rw [passes_iff] at hpass ⊢
  rw [h.lock? j hj, h.row.1 j hj]
  exact hpass

/-! ### Call after call -/

theorem passes_later {t u : Time} (hu : sh.redis.now ≤ u) (h : sh.passes j = true) :
    (sh.setClocks t u).passes j = true := by
  obtain ⟨hl, hrow⟩ := passes_iff.mp h
  refine passes_iff.mpr ⟨?_, hrow⟩
  have hl : (sh.redis.lock j).filter (fun l => decide (sh.redis.now ≤ l.expiresAt)) = none := hl
  show (sh.redis.lock j).filter (fun l => decide (u ≤ l.expiresAt)) = none
  rw [Option.filter_eq_none_iff] at hl ⊢
  intro l hlock
  have hexp := hl l hlock
  simp only [decide_eq_true_eq] at hexp ⊢
  intro hle
  exact hexp (le_trans hu hle)

/-- **What calls return** has an entry and a queued row at the start. -/
theorem mem_of_claimCalls {clocks : List (Time × Time)} {rs : List (Option JobId)}
    (h : claimCalls cfg w clocks sh = some rs) (hj : some j ∈ rs) :
    (∃ p, j ∈ sh.redis.queue p) ∧ ∃ row, sh.db.row j = some row ∧ row.status = .queued := by
  induction clocks generalizing sh rs with
  | nil =>
    cases h
    cases hj
  | cons c rest ih =>
    obtain ⟨sh', r, rs', h₁, h₂, rfl⟩ := claimCalls_cons h
    have he := claimFrom_effect h₁
    rcases List.mem_cons.mp hj with hr | hj
    · subst hr
      obtain ⟨row, hrow, hq, -⟩ := he.row.2 j rfl
      have hmem : ∃ p, j ∈ (sh.setClocks c.1 c.2).redis.queue p :=
        mem_of_claimFrom priorityOrder_nodup h₁
      exact ⟨hmem, row, hrow, hq⟩
    · -- what the later calls return was there before this one
      obtain ⟨⟨p, hp⟩, row, hrow, hq⟩ := ih h₂ hj
      have hne : r ≠ some j := by
        intro hr
        obtain ⟨row', -, -, hclaimed⟩ := he.row.2 j hr
        cases hclaimed.symm.trans hrow
        cases hq
      rw [he.row.1 j hne] at hrow
      have hmem : j ∈ (sh.setClocks c.1 c.2).redis.queue p := claimFrom_subset h₁ hp
      exact ⟨⟨p, hmem⟩, row, hrow, hq⟩

theorem nodup_of_claimCalls {clocks : List (Time × Time)} {rs : List (Option JobId)}
    (h : claimCalls cfg w clocks sh = some rs) : rs.reduceOption.Nodup := by
  induction clocks generalizing sh rs with
  | nil =>
    cases h
    exact List.nodup_nil
  | cons c rest ih =>
    obtain ⟨sh', r, rs', h₁, h₂, rfl⟩ := claimCalls_cons h
    cases r with
    | none =>
      rw [List.reduceOption_cons_of_none]
      exact ih h₂
    | some i =>
      rw [List.reduceOption_cons_of_some, List.nodup_cons, List.reduceOption_mem_iff]
      refine ⟨fun hmem => ?_, ih h₂⟩
      -- the job is no longer queued
      obtain ⟨row, -, -, hclaimed⟩ := (claimFrom_effect h₁).row.2 i rfl
      obtain ⟨-, row', hrow', hq⟩ := mem_of_claimCalls h₂ hmem
      cases hclaimed.symm.trans hrow'
      cases hq

/-- **Every job that can be claimed is returned** by as many calls as there are entries. -/
theorem claimCalls_reach {clocks : List (Time × Time)} {rs : List (Option JobId)}
    (hlen : (sh.redis.waiting priorityOrder).length ≤ clocks.length)
    (hclocks : (sh.redis.now :: clocks.map Prod.snd).Pairwise (· ≤ ·))
    (h : claimCalls cfg w clocks sh = some rs) (hj : j ∈ sh.redis.queue p)
    (hpass : sh.passes j = true) : some j ∈ rs := by
  induction clocks generalizing sh rs with
  | nil =>
    have hmem : j ∈ sh.redis.waiting priorityOrder :=
      mem_waiting.mpr ⟨p, mem_priorityOrder p, hj⟩
    rw [List.eq_nil_of_length_eq_zero (Nat.le_zero.mp hlen)] at hmem
    cases hmem
  | cons c rest ih =>
    obtain ⟨t, u⟩ := c
    obtain ⟨sh', r, rs', h₁, h₂, rfl⟩ := claimCalls_cons h
    rw [List.map_cons, List.pairwise_cons] at hclocks
    obtain ⟨hlater, hclocks⟩ := hclocks
    have hpass := passes_later (t := t) (hlater u List.mem_cons_self) hpass
    by_cases hr : r = some j
    · rw [hr]
      exact List.mem_cons_self
    refine List.mem_cons_of_mem _ (ih ?_ ?_ h₂ ?_ ((claimFrom_effect h₁).passes hr hpass))
    · -- one entry less, or none from the start
      have hshrink := claimFrom_shrinks priorityOrder_nodup h₁
      have hsame : (sh.setClocks t u).redis.waiting priorityOrder =
        sh.redis.waiting priorityOrder := rfl
      rw [hsame] at hshrink
      rw [List.length_cons] at hlen
      split at hshrink
      · rename_i hnil
        rw [hnil, List.length_nil] at hshrink
        omega
      · omega
    · have hnow : sh'.redis.now = u := (claimFrom_effect h₁).now
      rwa [hnow]
    · exact (claimFrom_keeps h₁ hpass hj).resolve_left hr

/-- **Stale entries cost calls and no job.**  Whatever the queues hold, as many calls as
there are entries return every job that can be claimed at the start, each job once, and
none that has no entry or is not queued. -/
theorem claims_reach_every_job (hl : 0 < cfg.jobLockTtlSeconds) (clocks : List (Time × Time))
    (hlen : (sh.redis.waiting priorityOrder).length ≤ clocks.length)
    (hclocks : (sh.redis.now :: clocks.map Prod.snd).Pairwise (· ≤ ·)) :
    ∃ rs, claimCalls cfg w clocks sh = some rs ∧ rs.reduceOption.Nodup ∧
      (∀ p j, j ∈ sh.redis.queue p → sh.passes j = true → j ∈ rs.reduceOption) ∧
      ∀ j ∈ rs.reduceOption, (∃ p, j ∈ sh.redis.queue p) ∧
        ∃ row, sh.db.row j = some row ∧ row.status = .queued := by
  obtain ⟨rs, hrs⟩ := claimCalls_returns (w := w) hl clocks sh
  refine ⟨rs, hrs, nodup_of_claimCalls hrs, fun p j hj hpass => ?_, fun j hj => ?_⟩
  · exact List.reduceOption_mem_iff.mpr (claimCalls_reach hlen hclocks hrs hj hpass)
  · exact mem_of_claimCalls hrs (List.reduceOption_mem_iff.mp hj)

/-- Job `7` behind two stale entries, and a second entry of it in another queue. -/
def amongStale : Shared where
  db := ⟨0, ⟨[{ insertJob {} 0 7 plainJob with status := .queued },
    insertJob {} 0 8 plainJob], by decide⟩, [], []⟩
  redis := { State.empty.redis with
    queue := fun p => match p with
      | .high => SortedSet.empty.add 6 0
      | .medium => ((SortedSet.empty.add 8 0).add 9 1).add 7 2
      | .low => SortedSet.empty.add 7 0 }

/-- The first call drops jobs `6` and `8` and returns job `7` from the last queue; the
others find nothing. -/
theorem claims_reach_every_job_behind : ∃ rs,
    claimCalls {} 1 (List.replicate 5 (0, 0)) amongStale = some rs ∧
    rs = [some 7, none, none, none, none] ∧ 7 ∈ rs.reduceOption := by
  obtain ⟨rs, hrs, -, hall, -⟩ := @claims_reach_every_job {} 1 amongStale (by decide)
    (List.replicate 5 (0, 0)) (by decide +kernel) (by decide)
  have hrun : claimCalls {} 1 (List.replicate 5 (0, 0)) amongStale =
      some [some 7, none, none, none, none] := by decide +kernel
  refine ⟨rs, hrs, Option.some.inj (hrs.symm.trans hrun), ?_⟩
  exact hall .medium 7 (by decide +kernel) (by decide +kernel)

end NotifyQueue
