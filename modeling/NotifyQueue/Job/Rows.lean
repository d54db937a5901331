import NotifyQueue.Model.Process

/-!
# Rows under the statements

How the row of one job looks after a statement has run: a batch update acts on
each row by itself, a matched single-row update sets that row and no other,
and the transaction of `dead_letter` either does both of its writes or none.
-/

namespace NotifyQueue

open KeyedTable

theorem row_update (db : Db) (u : Update Job) (id : JobId) :
    (db.update u).row id = (db.row id).map u.apply := Table.find?_update db.jobs u id

theorem fetchrow_eq_some {db db' : Db} {u : Update Job} :
    db.fetchrow u = some db' ↔ db.jobs.hits u = true ∧ db' = db.update u := by
  rw [Db.fetchrow, Option.ite_none_right_eq_some, Option.some.injEq, eq_comm (a := db')]

/-- **A matched single-row `UPDATE`** sets that row and no other. -/
theorem row_of_fetchrow {db db' : Db} {u : Update Job} {id : JobId}
    (hk : ∀ r, u.applies r = true → r.id = id) (h : db.fetchrow u = some db') :
    ∃ r, db.row id = some r ∧ u.applies r = true ∧ db'.row id = some (u.set r) ∧
      (∀ j, j ≠ id → db'.row j = db.row j) ∧
      db' = { db with jobs := db.jobs.update u } := by
  obtain ⟨hh, rfl⟩ := fetchrow_eq_some.mp h
  obtain ⟨r, hr, ha⟩ := (Table.hits_iff_of_key hk).mp hh
  have hr' : db.row id = some r := hr
  refine ⟨r, hr', ha, ?_, ?_, rfl⟩
  · rw [row_update, hr', Option.map_some, Update.apply_of_applies ha]
  · intro j hj
    rw [row_update]
    cases hjr : db.row j with
    | none => rfl
    | some r' =>
      have hid : r'.id = j := Table.key_of_find? hjr
      have hn : u.applies r' = false := by
        rw [← Bool.not_eq_true]
        intro ha'
        exact hj (hid.symm.trans (hk r' ha'))
      rw [Option.map_some, Update.apply_of_not hn]

theorem not_hits_of_fetchrow {db : Db} {u : Update Job} (h : db.fetchrow u = none) :
    db.jobs.hits u = false := by
  rw [← Bool.not_eq_true]
  intro hh
  cases (fetchrow_eq_some.mpr ⟨hh, rfl⟩).symm.trans h

theorem not_applies_of_fetchrow {db : Db} {u : Update Job} {id : JobId} {r : Job}
    (h : db.fetchrow u = none) (hr : db.row id = some r) : u.applies r = false := by
  rw [← Bool.not_eq_true]
  intro ha
  have := Table.hits_iff.mpr ⟨id, r, hr, ha⟩
  rw [not_hits_of_fetchrow h] at this
  cases this

/-- A `WHERE id = … AND worker_id = … AND status = 'claimed'`. -/
theorem fenced_iff {r : Job} {id : JobId} {worker : Option WorkerId} :
    (decide (r.id = id) && sqlEq r.workerId worker && decide (r.status = .claimed)) = true ↔
      r.id = id ∧ (r.workerId = worker ∧ r.workerId ≠ none) ∧ r.status = .claimed := by
  simp only [Bool.and_eq_true, decide_eq_true_eq, sqlEq_iff, and_assoc]

theorem marks_iff {now : Time} {error : Option String} {id : JobId} {n : Nat}
    {expected : Option WorkerId} {r : Job} :
    (markDeadLettered now error id n expected).applies r = true ↔
      r.id = id ∧ r.workerId = expected := by
  simp only [markDeadLettered, Bool.and_eq_true, decide_eq_true_eq]

/-- **What the transaction of `dead_letter` does when it commits.** -/
theorem deadLetterTxn_committed {db db' : Db} {job : LetterFields} {error : Option String}
    {n : Nat} {expected : Option WorkerId} {cut : Option TxnPoint}
    (h : deadLetterTxn db job error n expected cut = (db', .committed)) :
    ∃ marked, db.fetchrow (markDeadLettered db.now error job.id n expected) = some marked ∧
      db' = { marked with
        deadLetterQueue := marked.deadLetterQueue ++ [insertDeadLetter job n error] } := by
  unfold deadLetterTxn at h
  split at h
  · cases h
  · split at h
    · split at h <;> cases h
    · rename_i marked hm
      split at h
      · cases h
      · dsimp only at h
        split at h <;> cases h
        exact ⟨marked, hm, rfl⟩

/-- **A `dead_letter` transaction that does not commit** leaves both tables as
they were, wherever it stopped. -/
theorem deadLetterTxn_not_committed {db : Db} {job : LetterFields} {error : Option String}
    {n : Nat} {expected : Option WorkerId} {cut : Option TxnPoint}
    (h : (deadLetterTxn db job error n expected cut).2 ≠ .committed) :
    (deadLetterTxn db job error n expected cut).1 = db := by
  unfold deadLetterTxn at h ⊢
  split
  · rfl
  · rename_i hcut
    rw [if_neg hcut] at h
    split
    · split <;> rfl
    · rename_i marked hm
      rw [hm] at h
      by_cases hc : cut = some .marked
      · simp only [hc, if_true]
      · by_cases hi : cut = some .inserted
        · simp [hi]
        · simp [hc, hi] at h

theorem deadLetterTxn_cut {db : Db} {job : LetterFields} {error : Option String}
    {n : Nat} {expected : Option WorkerId} (point : TxnPoint) :
    (deadLetterTxn db job error n expected (some point)).2 = .raised := by
  unfold deadLetterTxn
  cases point <;> simp only [reduceCtorEq, if_true, if_false, Option.some.injEq] <;>
    split <;> simp

/-- The transaction, when nothing cuts it short. -/
theorem deadLetterTxn_complete (db : Db) (job : LetterFields) (error : Option String) (n : Nat)
    (expected : Option WorkerId) :
    (db.fetchrow (markDeadLettered db.now error job.id n expected) = none ∧
      deadLetterTxn db job error n expected none = (db, .notOwned)) ∨
    ∃ db', deadLetterTxn db job error n expected none = (db', .committed) := by
  unfold deadLetterTxn
  cases hf : db.fetchrow (markDeadLettered db.now error job.id n expected) with
  | none => exact Or.inl ⟨rfl, rfl⟩
  | some marked => exact Or.inr ⟨_, rfl⟩

theorem stale_iff {now timeout : Time} {r : Job} :
    (recoverStaleClaimed now timeout).applies r = true ↔
      r.status = .claimed ∧ ∃ t, r.heartbeatAt = some t ∧ t < now - timeout := by
  simp only [recoverStaleClaimed, Bool.and_eq_true, decide_eq_true_eq, Option.any_eq_true]

theorem recovers_mem {cfg : Settings} {db : Db} {ids : List JobId}
    (h : recovers cfg db ids = true) {id : JobId} :
    id ∈ ids ↔ ∃ r, db.row id = some r ∧
      (recoverStaleClaimed db.now cfg.heartbeatTimeout).applies r = true := by
  rw [(of_decide_eq_true h).mem_iff, List.mem_map]
  constructor
  · rintro ⟨r, hr, rfl⟩
    obtain ⟨hr, ha⟩ := List.mem_filter.mp hr
    exact ⟨r, Table.find?_key_iff.mpr hr, ha⟩
  · rintro ⟨r, hr, ha⟩
    exact ⟨r, List.mem_filter.mpr ⟨Table.mem_of_find? hr, ha⟩, Table.key_of_find? hr⟩

theorem recovers_nodup {cfg : Settings} {db : Db} {ids : List JobId}
    (h : recovers cfg db ids = true) : ids.Nodup := by
  rw [(of_decide_eq_true h).nodup_iff]
  exact db.jobs.nodup.sublist (List.filter_sublist.map _)

theorem promotes_picks {cfg : Settings} {db : Db} {locked ids : List JobId}
    (h : promotes cfg db locked ids = true) :
    Table.picks (db.jobs.rows.filter (due cfg db.now locked)) cfg.schedulerBatchSize.toNat ids
      = true := by
  unfold promotes at h
  simp only [Bool.and_eq_true] at h
  exact h.1.2

theorem due_iff {cfg : Settings} {now : Time} {locked : List JobId} {r : Job} :
    due cfg now locked r = true ↔ r.status = .pending ∧
      r.sendAt ≤ now + cfg.schedulerLookaheadSeconds * second ∧ r.id ∉ locked := by
  simp only [due, Bool.and_eq_true, decide_eq_true_eq, and_assoc]

theorem staleQueued_iff {cfg : Settings} {now : Time} {r : Job} :
    staleQueued cfg now r = true ↔
      r.status = .queued ∧ r.updatedAt < now - cfg.queuedRequeueSeconds * second := by
  simp only [staleQueued, Bool.and_eq_true, decide_eq_true_eq]

/-- **A promoted row was pending and due.** -/
theorem promotes_mem {cfg : Settings} {db : Db} {locked ids : List JobId}
    (h : promotes cfg db locked ids = true) {id : JobId} (hid : id ∈ ids) :
    ∃ r, db.row id = some r ∧ due cfg db.now locked r = true :=
  Table.find?_of_picks (promotes_picks h) hid

theorem mem_returning {β : Type*} {db : Db} {f : Job → β} {ids : List JobId} {x : β} :
    x ∈ db.returning f ids ↔ ∃ id ∈ ids, ∃ r, db.row id = some r ∧ f r = x := by
  simp only [Db.returning, List.mem_filterMap, Option.map_eq_some_iff]

theorem ids_of_rows {db : Db} {ids : List JobId} (h : ∀ id ∈ ids, ∃ r, db.row id = some r) :
    (ids.filterMap db.row).map Job.id = ids := by
  induction ids with
  | nil => rfl
  | cons id ids ih =>
    obtain ⟨r, hr⟩ := h id List.mem_cons_self
    rw [List.filterMap_cons_some hr, List.map_cons,
      ih (fun j hj => h j (List.mem_cons_of_mem _ hj))]
    exact congrArg (· :: ids) (Table.key_of_find? hr)

theorem returning_update {β : Type*} {db : Db} {u : Update Job} {f : Job → β} {ids : List JobId}
    (h : ∀ id ∈ ids, ∃ r, db.row id = some r ∧ u.applies r = true) :
    (db.update u).returning f ids = (ids.filterMap db.row).map (fun r => f (u.set r)) := by
  rw [Db.returning, List.map_filterMap]
  refine List.filterMap_congr (fun id hid => ?_)
  obtain ⟨r, hr, ha⟩ := h id hid
  rw [row_update, hr, Option.map_some, Option.map_some, Option.map_some,
    Update.apply_of_applies ha]

theorem fireWebhook_frame {cfg : Settings} {env : Env} {db db' : Db} {n : Notice}
    {attempt : Nat} {next : Option Nat} (h : fireWebhook cfg env db n attempt = (db', next)) :
    db'.now = db.now ∧ db'.jobs = db.jobs ∧ db'.deadLetterQueue = db.deadLetterQueue := by
  unfold fireWebhook at h
  split at h
  · cases h
    exact ⟨rfl, rfl, rfl⟩
  · split at h
    · cases h
      exact ⟨rfl, rfl, rfl⟩
    · dsimp only at h
      split at h
      · cases h
        exact ⟨rfl, rfl, rfl⟩
      · split at h <;> cases h <;> exact ⟨rfl, rfl, rfl⟩

end NotifyQueue
