import NotifyQueue.Safety.BestClaim
import NotifyQueue.Safety.Scores

/-!
# The order of a drain

From empty queues without locks, `promote_due_jobs` runs until it promotes
nothing, and then one worker calls `claim_next_job` over and over.  The scores are
those of exact arithmetic: as doubles, two that are close may be one.  `Promoted` is
the invariant of the first part: what has been promoted is in the queue of its
priority with its score, and nothing else is.  In the second part the jobs that
still wait are the entries of the three queues one after another, and every call
takes the first of them (`claimFrom_waiting`).
-/

namespace NotifyQueue

open KeyedTable

/-- Calls of `promote_due_jobs` that each promote something, with the answer of
the database and the clocks after the call. -/
def promoteCalls (cfg : Settings) : List (List JobId × Time × Time) → Shared → Option Shared
  | [], sh => some sh
  | (ids, t, u) :: rest, sh =>
    if ids = [] then none
    else (promoteDueJobs cfg ids sh exactScore).bind (fun (sh', _) =>
      (sh'.wait t u).bind (promoteCalls cfg rest))

/-- What calls of `claim_next_job` by one worker return, with the clocks they find. -/
def claimCalls (cfg : Settings) (w : WorkerId) :
    List (Time × Time) → Shared → Option (List (Option JobId))
  | [], _ => some []
  | (t, u) :: rest, sh =>
    (claimNextJob cfg w (sh.setClocks t u)).bind (fun (sh', r) =>
      (claimCalls cfg w rest sh').map (fun rs => r :: rs))

/-- The pending rows, whether due or not. -/
def Db.pending (db : Db) : List Job := db.jobs.rows.filter (fun r => decide (r.status = .pending))

/-- Promotion ends, and the claims that follow return the jobs that were due, each
once, by priority and then by `send_at`, and after them nothing. -/
structure DrainsInOrder (cfg : Settings) (w : WorkerId) (sh : Shared) : Prop where
  ends : ∀ calls sh₁, promoteCalls cfg calls sh = some sh₁ →
    calls.length ≤ sh.db.pending.length ∧
    ∃ sh' ids, promoteDueJobs cfg ids sh₁ exactScore = some (sh', ids)
  order : ∀ calls sh₁ sh', promoteCalls cfg calls sh = some sh₁ →
    promoteDueJobs cfg [] sh₁ exactScore = some (sh', []) →
    ∃ L : List Job, L.Perm (sh.db.jobs.rows.filter (due cfg sh'.db.now [])) ∧
      L.Pairwise (fun r r' => before r' r = false) ∧
      ∀ clocks, (∀ rs, claimCalls cfg w clocks sh' = some rs →
          rs = (List.range clocks.length).map (fun i => L[i]?.map Job.id)) ∧
        (0 < cfg.jobLockTtlSeconds → ∃ rs, claimCalls cfg w clocks sh' = some rs)

variable {cfg : Settings} {w : WorkerId} {sh sh₁ sh' : Shared} {rd rd' : Redis}
  {p q : Priority} {id : JobId} {ids ids' done : List JobId} {db₀ : Db}

/-! ### Answers -/

/-- The place of a row in `ORDER BY priority ASC, send_at ASC`. -/
def Job.turn (r : Job) : ℕ ×ₗ ℤ := toLex (r.priority.rank, r.sendAt)

theorem before_iff {r r' : Job} : before r r' = true ↔ r.turn < r'.turn := by
  rw [Job.turn, Job.turn, Prod.Lex.toLex_lt_toLex, before, Bool.or_eq_true, Bool.and_eq_true,
    decide_eq_true_eq, decide_eq_true_eq, decide_eq_true_eq]
  exact or_congr_right (and_congr_left fun _ =>
    ⟨fun h => congrArg Priority.rank h, Priority.rank_injective⟩)

/-- **The inner `SELECT` always has an answer**: the first rows in its order. -/
theorem exists_promotes (hb : 0 ≤ cfg.schedulerBatchSize) (db : Db) (locked : List JobId) :
    ∃ ids, promotes cfg db locked ids = true := by
  let cands := db.jobs.rows.filter (due cfg db.now locked)
  let le : Job → Job → Bool := fun r r' => decide (r.turn ≤ r'.turn)
  let sorted := cands.mergeSort le
  let n := cfg.schedulerBatchSize.toNat
  have hperm : sorted.Perm cands := List.mergeSort_perm cands le
  have hsorted : sorted.Pairwise (fun r r' => le r r' = true) := by
    refine List.pairwise_mergeSort (fun a b c hab hbc => ?_) (fun a b => ?_) cands
    · exact decide_eq_true (le_trans (of_decide_eq_true hab) (of_decide_eq_true hbc))
    · simp only [le, Bool.or_eq_true, decide_eq_true_eq]
      exact le_total a.turn b.turn
  have hnodup : (cands.map Job.id).Nodup := db.jobs.nodup.sublist (List.filter_sublist.map _)
  refine ⟨(sorted.take n).map Job.id, ?_⟩
  simp only [promotes, Table.picks, Bool.and_eq_true, decide_eq_true_eq, List.all_eq_true,
    beq_iff_eq, Bool.or_eq_true, Bool.not_eq_true']
  refine ⟨⟨hb, ⟨?_, fun k hk => ?_⟩, ?_⟩, fun r hr => ?_⟩
  · exact ((hperm.map Job.id).nodup_iff.mpr hnodup).sublist ((List.take_sublist n sorted).map _)
  · exact (hperm.map Job.id).subset (((List.take_sublist n sorted).map Job.id).subset hk)
  · rw [List.length_map, List.length_take, hperm.length_eq]
  · by_cases hin : r ∈ sorted.take n
    · exact Or.inl (List.mem_map_of_mem hin)
    · -- `r` is left out, so it comes after everything that is taken
      have hrest : r ∈ sorted.drop n := by
        have hall := hperm.mem_iff.mpr hr
        rw [← List.take_append_drop n sorted, List.mem_append] at hall
        exact hall.resolve_left hin
      rw [← List.take_append_drop n sorted, List.pairwise_append] at hsorted
      refine Or.inr (fun r' hr' => ?_)
      by_cases hout : r'.id ∈ (sorted.take n).map Job.id
      · obtain ⟨r₂, hr₂, hid⟩ := List.mem_map.mp hout
        have hmem := hperm.subset ((List.take_sublist n sorted).subset hr₂)
        obtain rfl : r₂ = r' := List.inj_on_of_nodup_map hnodup hmem hr' hid
        have hle : r₂.turn ≤ r.turn := of_decide_eq_true (hsorted.2.2 r₂ hr₂ r hrest)
        refine Or.inr ?_
        rw [← Bool.not_eq_true, before_iff]
        exact not_lt.mpr hle
      · exact Or.inl hout

theorem not_due_of_promotes (hb : 1 ≤ cfg.schedulerBatchSize) {db : Db} {locked : List JobId}
    (h : promotes cfg db locked [] = true) {r : Job} (hr : db.row id = some r) :
    due cfg db.now locked r = false := by
  rw [← Bool.not_eq_true]
  intro hdue
  have hmem : r ∈ db.jobs.rows.filter (due cfg db.now locked) :=
    List.mem_filter.mpr ⟨Table.mem_of_find? hr, hdue⟩
  have hpicks := promotes_picks h
  simp only [Table.picks, Bool.and_eq_true, beq_iff_eq, List.length_nil] at hpicks
  have := List.length_pos_of_mem hmem
  omega

/-! ### Promotion -/

/-- What is known of a row that promotion does not change, and its status. -/
def Job.view (r : Job) : QueueRow × JobStatus := (r.queueRow, r.status)

/-- The jobs `done` have been promoted since `db₀`, and nothing else has happened. -/
structure Promoted (cfg : Settings) (db₀ : Db) (done : List JobId) (sh : Shared) : Prop where
  nodup : done.Nodup
  due : ∀ id ∈ done, ∃ r, db₀.row id = some r ∧ due cfg sh.db.now [] r = true
  row : ∀ id, (sh.db.row id).map Job.view =
    (db₀.row id).map (fun r => (r.queueRow, if id ∈ done then .queued else r.status))
  member : ∀ p id, id ∈ sh.redis.queue p ↔ id ∈ done ∧ ∃ r, db₀.row id = some r ∧ r.priority = p
  score : ∀ p id v, (sh.redis.queue p).score? id = some v →
    ∃ r, db₀.row id = some r ∧ v = exactScore p r.sendAt
  lock : ∀ id, sh.redis.lock id = none

theorem Promoted.row_of (h : Promoted cfg db₀ done sh) {r₀ : Job} (hr : db₀.row id = some r₀) :
    ∃ r, sh.db.row id = some r ∧ r.priority = r₀.priority ∧ r.sendAt = r₀.sendAt ∧
      r.status = if id ∈ done then .queued else r₀.status := by
  have hview := h.row id
  rw [hr, Option.map_some] at hview
  obtain ⟨r, hr', hv⟩ := Option.map_eq_some_iff.mp hview
  obtain ⟨hq, hst⟩ := Prod.mk.inj hv
  obtain ⟨-, hp, hat⟩ := QueueRow.mk.inj hq
  exact ⟨r, hr', hp, hat, hst⟩

/-- A row that is due has been due from the start, and has not been promoted. -/
theorem Promoted.due_iff (h : Promoted cfg db₀ done sh) {now : Time} :
    (∃ r, sh.db.row id = some r ∧ NotifyQueue.due cfg now [] r = true) ↔
      id ∉ done ∧ ∃ r, db₀.row id = some r ∧ NotifyQueue.due cfg now [] r = true := by
  have hview := h.row id
  cases hr₀ : db₀.row id with
  | none =>
    rw [hr₀, Option.map_none, Option.map_eq_none_iff] at hview
    simp [hview]
  | some r₀ =>
    obtain ⟨r, hr, -, hat, hst⟩ := h.row_of hr₀
    simp only [hr, Option.some.injEq, exists_eq_left', NotifyQueue.due, hat, hst]
    by_cases hd : id ∈ done <;> simp [hd]

theorem promoted_init (cfg : Settings) (hq : ∀ p, sh.redis.queue p = SortedSet.empty)
    (hl : ∀ id, sh.redis.lock id = none) : Promoted cfg sh.db [] sh where
  nodup := List.nodup_nil
  due := by simp
  row id := by
    simp only [List.not_mem_nil, if_false]
    rfl
  member p id := by
    rw [hq]
    simp [SortedSet.mem_iff, SortedSet.empty]
  score p id v hv := by
    rw [hq] at hv
    cases hv
  lock := hl

/-- **One call** promotes its batch on top of what has been promoted. -/
theorem Promoted.call (h : Promoted cfg db₀ done sh)
    (hc : promoteDueJobs cfg ids sh exactScore = some (sh', ids')) :
    Promoted cfg db₀ (done ++ ids) sh' := by
  obtain ⟨hp, rfl⟩ := promote_eq hc
  let db := sh.db.update (promoteIds sh.db.now ids)
  have hfresh : ∀ id ∈ ids, id ∉ done ∧
      ∃ r, db₀.row id = some r ∧ NotifyQueue.due cfg sh.db.now [] r = true :=
    fun id hid => h.due_iff.mp (promotes_mem hp hid)
  have hview : ∀ id, (db.row id).map Job.view =
      (db₀.row id).map (fun r =>
        (r.queueRow, if id ∈ done ++ ids then .queued else r.status)) := by
    intro id
    rw [row_update, Option.map_map]
    cases hr₀ : db₀.row id with
    | none =>
      have := h.row id
      rw [hr₀, Option.map_none, Option.map_eq_none_iff] at this
      rw [this]
      rfl
    | some r₀ =>
      obtain ⟨r, hr, hpr, hat, hst⟩ := h.row_of hr₀
      have hid : r.id = id := Table.key_of_find? hr
      have hid₀ : r₀.id = id := Table.key_of_find? hr₀
      by_cases hin : id ∈ ids <;>
        simp [hr, Job.view, Job.queueRow, Update.apply, promoteIds, hid, hid₀, hpr, hat, hst, hin]
  have hrow : ∀ {id p}, (∃ r, db.row id = some r ∧ r.priority = p) ↔
      ∃ r, db₀.row id = some r ∧ r.priority = p := by
    intro id p
    have hv := congrArg (Option.map (fun x : QueueRow × JobStatus => x.1.priority)) (hview id)
    rw [Option.map_map, Option.map_map] at hv
    rw [← Option.map_eq_some_iff, ← Option.map_eq_some_iff]
    exact iff_of_eq (congrArg (· = some p) hv)
  refine ⟨?_, fun id hid => ?_, hview, fun p id => ?_, fun p id v hv => ?_, fun id => ?_⟩
  · exact h.nodup.append (Table.picks_nodup (promotes_picks hp))
      (fun id hd hid => (hfresh id hid).1 hd)
  · rcases List.mem_append.mp hid with hid | hid
    · exact h.due id hid
    · exact (hfresh id hid).2
  · rw [mem_enqueue_returning, h.member, hrow, ← or_and_right, List.mem_append, or_comm]
  · rcases score?_enqueue _ _ hv with ⟨row, hrow', rfl, -, rfl⟩ | ⟨-, hv⟩
    · obtain ⟨j, hj, r, hr, rfl⟩ := mem_returning.mp hrow'
      obtain rfl : r.id = j := Table.key_of_find? hr
      obtain ⟨-, r₀, hr₀, -⟩ := hfresh r.id hj
      have hv := hview r.id
      rw [hr, hr₀] at hv
      have hat : r.sendAt = r₀.sendAt :=
        congrArg (fun x : QueueRow × JobStatus => x.1.sendAt) (Option.some.inj hv)
      exact ⟨r₀, hr₀, by rw [← hat]; rfl⟩
    · exact h.score p id v hv
  · rw [Redis.enqueue_frame]
    exact h.lock id

theorem due_mono {t t' : Time} (ht : t ≤ t') {r : Job} (h : due cfg t [] r = true) :
    due cfg t' [] r = true := by
  obtain ⟨hst, hsend, hid⟩ := due_iff.mp h
  exact due_iff.mpr ⟨hst, le_trans hsend (Int.add_le_add_right ht _), hid⟩

theorem Promoted.wait (h : Promoted cfg db₀ done sh) {t u : Time}
    (hw : sh.wait t u = some sh') : Promoted cfg db₀ done sh' := by
  obtain ⟨hle, rfl⟩ := wait_eq hw
  refine ⟨h.nodup, fun id hid => ?_, h.row, h.member, h.score, h.lock⟩
  obtain ⟨r, hr, hdue⟩ := h.due id hid
  exact ⟨r, hr, due_mono hle hdue⟩

theorem now_of_promote {score : Scoring}
    (h : promoteDueJobs cfg ids sh score = some (sh', ids')) :
    sh'.db.now = sh.db.now := by
  obtain ⟨-, rfl⟩ := promote_eq h
  rfl

/-- **Any number of calls**: each promotes at least one more job. -/
theorem promoted_of_calls {calls : List (List JobId × Time × Time)}
    (h : Promoted cfg db₀ done sh) (hc : promoteCalls cfg calls sh = some sh₁) :
    ∃ done', Promoted cfg db₀ done' sh₁ ∧ done.length + calls.length ≤ done'.length := by
  induction calls generalizing done sh with
  | nil =>
    cases hc
    exact ⟨done, h, le_rfl⟩
  | cons call rest ih =>
    obtain ⟨ids, t, u⟩ := call
    rw [promoteCalls] at hc
    split at hc
    · cases hc
    · rename_i hne
      obtain ⟨⟨sh₂, ids'⟩, h₂, hc⟩ := Option.bind_eq_some_iff.mp hc
      obtain ⟨sh₃, h₃, hc⟩ := Option.bind_eq_some_iff.mp hc
      obtain ⟨done', h', hlen⟩ := ih ((h.call h₂).wait h₃) hc
      refine ⟨done', h', ?_⟩
      have := List.length_pos_of_ne_nil hne
      rw [List.length_append] at hlen
      rw [List.length_cons]
      omega

theorem Promoted.length_le (h : Promoted cfg db₀ done sh) : done.length ≤ db₀.pending.length := by
  have hsub : done ⊆ db₀.pending.map Job.id := by
    intro id hid
    obtain ⟨r, hr, hdue⟩ := h.due id hid
    have hst : r.status = .pending := (NotifyQueue.due_iff.mp hdue).1
    rw [← show r.id = id from Table.key_of_find? hr]
    exact List.mem_map_of_mem
      (List.mem_filter.mpr ⟨Table.mem_of_find? hr, decide_eq_true hst⟩)
  have hle := List.Nodup.length_le_of_subset h.nodup hsub
  rwa [List.length_map] at hle

theorem Promoted.mem_done (hb : 1 ≤ cfg.schedulerBatchSize) (h : Promoted cfg db₀ done sh)
    (hc : promoteDueJobs cfg [] sh exactScore = some (sh', ids')) :
    id ∈ done ↔ ∃ r, db₀.row id = some r ∧ NotifyQueue.due cfg sh.db.now [] r = true := by
  refine ⟨h.due id, fun hr => ?_⟩
  by_contra hnot
  obtain ⟨r, hr, hdue⟩ := h.due_iff.mpr ⟨hnot, hr⟩
  rw [not_due_of_promotes hb (promote_eq hc).1 hr] at hdue
  cases hdue

/-! ### Claims -/

/-- The members of a queue, first to last. -/
def Redis.members (rd : Redis) (p : Priority) : List JobId :=
  (rd.queue p).entries.map (fun e => (ofLex e).2)

/-- The members of the queues `ps`, in the order in which they are tried. -/
def Redis.waiting (rd : Redis) (ps : List Priority) : List JobId := ps.flatMap rd.members

theorem members_congr (h : rd'.queue p = rd.queue p) : rd'.members p = rd.members p := by
  rw [Redis.members, h, Redis.members]

theorem waiting_congr {ps : List Priority} (h : ∀ q ∈ ps, rd'.queue q = rd.queue q) :
    rd'.waiting ps = rd.waiting ps :=
  List.flatMap_congr (fun q hq => members_congr (h q hq))

theorem members_of_none (h : rd.zpopmin p = none) : rd.members p = [] := by
  unfold Redis.zpopmin SortedSet.popMin at h
  split at h
  · rename_i hz
    split at hz
    · rename_i he
      rw [Redis.members, he]
      rfl
    · cases hz
  · cases h

theorem members_of_zpopmin (h : rd.zpopmin p = some (id, rd')) :
    rd.members p = id :: rd'.members p := by
  obtain ⟨z, hz, rfl⟩ := Redis.zpopmin_eq_some.mp h
  obtain ⟨s, he⟩ := SortedSet.popMin_eq hz
  simp only [Redis.members, Function.update_self, he, List.map_cons]
  rfl

theorem Popped.members (h : Popped sh sh' p id) :
    sh.redis.members p = id :: sh'.redis.members p := by
  obtain ⟨rd, hz, hqueue⟩ := h
  rw [members_of_zpopmin hz, members_congr (congrFun hqueue p)]

/-- **A call takes the first job that waits**, when everything that waits can be
claimed, and leaves the others as they are. -/
theorem claimFrom_waiting {ps : List Priority} {r : Option JobId} (hn : ps.Nodup)
    (hpass : ∀ j ∈ sh.redis.waiting ps, sh.passes j = true)
    (h : claimFrom cfg w ps sh = some (sh', r)) :
    sh.redis.waiting ps = r.toList ++ sh'.redis.waiting ps ∧
      (r = none → sh.redis.waiting ps = []) ∧
      (∀ q, q ∉ ps → sh'.redis.queue q = sh.redis.queue q) ∧
      ∀ j, r ≠ some j → sh'.redis.lock j = sh.redis.lock j ∧ sh'.db.row j = sh.db.row j := by
  induction ps generalizing sh with
  | nil =>
    cases h
    exact ⟨rfl, fun _ => rfl, fun _ _ => rfl, fun _ _ => ⟨rfl, rfl⟩⟩
  | cons p rest ih =>
    obtain ⟨hp, hn⟩ := List.nodup_cons.mp hn
    have hcons : ∀ rd : Redis, rd.waiting (p :: rest) = rd.members p ++ rd.waiting rest :=
      fun rd => List.flatMap_cons
    rw [hcons] at hpass ⊢
    rw [hcons]
    cases claimFrom_cons h with
    | empty hz h =>
      have hnil := members_of_none (first?_eq_none.mp hz)
      obtain ⟨hw, hnone, hq, hj⟩ := ih hn (fun j hj => hpass j (List.mem_append_right _ hj)) h
      rw [members_congr (hq p hp), hnil]
      exact ⟨hw, hnone, fun q hm => hq q (fun hr => hm (List.mem_cons_of_mem _ hr)), hj⟩
    | @skip sh₁ id r hpop hno =>
      have hyes : sh.passes id = true := hpass id (by simp [hpop.members])
      cases hno.symm.trans hyes
    | @take id hpop _ hframe =>
      refine ⟨?_, fun hr => (by cases hr), fun q hq => ?_, fun j hj => ?_⟩
      · have hrest : sh'.redis.waiting rest = sh.redis.waiting rest :=
          waiting_congr (fun q hq => hpop.queue (fun he => hp (he ▸ hq)))
        rw [hpop.members, hrest]
        rfl
      · exact hpop.queue (fun he => hq (he ▸ List.mem_cons_self))
      · exact hframe j (fun he => hj (congrArg some he.symm))

/-- Everything that waits can be claimed, and is waiting once. -/
structure Ready (sh : Shared) : Prop where
  nodup : (sh.redis.waiting priorityOrder).Nodup
  lock : ∀ j ∈ sh.redis.waiting priorityOrder, sh.redis.lock j = none
  row : ∀ j ∈ sh.redis.waiting priorityOrder, ∃ r, sh.db.row j = some r ∧ r.status = .queued

/-- **One call takes the first job that waits**, and what is left is ready again. -/
theorem Ready.claim (hready : Ready sh) {t u : Time} {r : Option JobId}
    (h : claimFrom cfg w priorityOrder (sh.setClocks t u) = some (sh', r)) :
    Ready sh' ∧ sh.redis.waiting priorityOrder = r.toList ++ sh'.redis.waiting priorityOrder ∧
      (r = none → sh.redis.waiting priorityOrder = []) := by
  have hpass : ∀ j ∈ (sh.setClocks t u).redis.waiting priorityOrder,
      (sh.setClocks t u).passes j = true := by
    intro j hj
    refine passes_iff.mpr ⟨?_, hready.row j hj⟩
    have hl : (sh.setClocks t u).redis.lock j = none := hready.lock j hj
    rw [Redis.lock?, hl]
    rfl
  obtain ⟨hw, hnone, -, hframe⟩ := claimFrom_waiting priorityOrder_nodup hpass h
  have hw : sh.redis.waiting priorityOrder = r.toList ++ sh'.redis.waiting priorityOrder := hw
  have hnodup := hready.nodup
  rw [hw] at hnodup
  have hne : ∀ j ∈ sh'.redis.waiting priorityOrder, r ≠ some j := by
    rintro j hj rfl
    exact (List.nodup_cons.mp hnodup).1 hj
  have hin : ∀ j ∈ sh'.redis.waiting priorityOrder, j ∈ sh.redis.waiting priorityOrder := by
    intro j hj
    rw [hw]
    exact List.mem_append_right _ hj
  refine ⟨⟨(List.nodup_append.mp hnodup).2.1, fun j hj => ?_, fun j hj => ?_⟩, hw, hnone⟩
  · rw [(hframe j (hne j hj)).1]
    exact hready.lock j (hin j hj)
  · rw [(hframe j (hne j hj)).2]
    exact hready.row j (hin j hj)

theorem claimCalls_cons {t u : Time} {rest : List (Time × Time)} {rs : List (Option JobId)}
    (h : claimCalls cfg w ((t, u) :: rest) sh = some rs) : ∃ sh' r rs',
      claimNextJob cfg w (sh.setClocks t u) = some (sh', r) ∧
        claimCalls cfg w rest sh' = some rs' ∧ rs = r :: rs' := by
  obtain ⟨⟨sh', r⟩, h₁, h⟩ := Option.bind_eq_some_iff.mp h
  obtain ⟨rs', h₂, rfl⟩ := Option.map_eq_some_iff.mp h
  exact ⟨sh', r, rs', h₁, h₂, rfl⟩

/-- **Calls return the jobs that wait, in their order**, and then nothing. -/
theorem claims_of_ready {clocks : List (Time × Time)} {rs : List (Option JobId)}
    (hready : Ready sh) (h : claimCalls cfg w clocks sh = some rs) :
    rs = (List.range clocks.length).map (fun i => (sh.redis.waiting priorityOrder)[i]?) := by
  induction clocks generalizing sh rs with
  | nil =>
    cases h
    rfl
  | cons c rest ih =>
    obtain ⟨sh', r, rs', h₁, h₂, rfl⟩ := claimCalls_cons h
    obtain ⟨hready', hw, hnone⟩ := hready.claim h₁
    rw [ih hready' h₂, List.length_cons, List.range_succ_eq_map, List.map_cons, List.map_map]
    cases r with
    | none =>
      have hnil : sh.redis.waiting priorityOrder = [] := hnone rfl
      rw [hnil] at hw ⊢
      have hnil' : sh'.redis.waiting priorityOrder = [] := hw.symm
      rw [hnil']
      rfl
    | some id =>
      have hw : sh.redis.waiting priorityOrder = id :: sh'.redis.waiting priorityOrder := hw
      rw [hw]
      rfl

theorem claimCalls_returns (hl : 0 < cfg.jobLockTtlSeconds) (clocks : List (Time × Time))
    (sh : Shared) : ∃ rs, claimCalls cfg w clocks sh = some rs := by
  induction clocks generalizing sh with
  | nil => exact ⟨[], rfl⟩
  | cons c rest ih =>
    obtain ⟨t, u⟩ := c
    obtain ⟨sh', r, h₁⟩ := claimFrom_returns (w := w) hl priorityOrder (sh.setClocks t u)
    obtain ⟨rs, h₂⟩ := ih sh'
    exact ⟨r :: rs, by simp only [claimCalls, claimNextJob, h₁, Option.bind_some, h₂,
      Option.map_some]⟩

/-! ### The order -/

theorem mem_waiting {ps : List Priority} :
    id ∈ rd.waiting ps ↔ ∃ p ∈ ps, id ∈ rd.queue p := List.mem_flatMap

theorem Promoted.mem_waiting (h : Promoted cfg db₀ done sh) :
    id ∈ sh.redis.waiting priorityOrder ↔ id ∈ done := by
  rw [NotifyQueue.mem_waiting]
  constructor
  · rintro ⟨p, -, hmem⟩
    exact ((h.member p id).mp hmem).1
  · intro hid
    obtain ⟨r, hr, -⟩ := h.due id hid
    exact ⟨r.priority, mem_priorityOrder _, (h.member _ id).mpr ⟨hid, r, hr, rfl⟩⟩

theorem Promoted.ready (h : Promoted cfg db₀ done sh) : Ready sh := by
  refine ⟨?_, fun j _ => h.lock j, fun j hj => ?_⟩
  · refine List.nodup_flatMap.mpr ⟨fun p _ => (sh.redis.queue p).nodup, ?_⟩
    refine priorityOrder_nodup.imp (fun hne id hp hq => hne ?_)
    obtain ⟨-, r, hr, rfl⟩ := (h.member _ id).mp hp
    obtain ⟨-, r', hr', rfl⟩ := (h.member _ id).mp hq
    cases hr.symm.trans hr'
    rfl
  · have hj := h.mem_waiting.mp hj
    obtain ⟨r₀, hr₀, -⟩ := h.due j hj
    obtain ⟨r, hr, -, -, hst⟩ := h.row_of hr₀
    exact ⟨r, hr, by rw [hst, if_pos hj]⟩

theorem exactScore_le {x y : Time} : exactScore p x ≤ exactScore p y ↔ x ≤ y := by
  have hpos : (0 : ℚ) < second := by norm_num [second]
  rw [exactScore, exactScore, add_le_add_iff_left, div_le_div_iff_of_pos_right hpos, Int.cast_le]

theorem Promoted.members_sorted (h : Promoted cfg db₀ done sh) (p : Priority) :
    (sh.redis.members p).Pairwise (fun i j => ∀ r, db₀.row i = some r → ∀ r', db₀.row j = some r' →
      before r' r = false) := by
  have hmem : ∀ e ∈ (sh.redis.queue p).entries, ∀ r, db₀.row (ofLex e).2 = some r →
      r.priority = p ∧ (ofLex e).1 = exactScore p r.sendAt := by
    intro e he r hr
    obtain ⟨-, r₀, hr₀, hp⟩ := (h.member p (ofLex e).2).mp (SortedSet.mem_iff.mpr ⟨e, he, rfl⟩)
    cases hr.symm.trans hr₀
    obtain ⟨r₁, hr₁, hv⟩ := h.score p (ofLex e).2 (ofLex e).1 (SortedSet.score?_eq_some.mpr he)
    cases hr.symm.trans hr₁
    exact ⟨hp, hv⟩
  refine List.pairwise_map.mpr ((sh.redis.queue p).sorted.imp_of_mem ?_)
  intro e e' he he' hle r hr r' hr'
  obtain ⟨hp, hv⟩ := hmem e he r hr
  obtain ⟨hp', hv'⟩ := hmem e' he' r' hr'
  have hscore : (ofLex e).1 ≤ (ofLex e').1 := by
    rcases Prod.Lex.le_iff.mp hle with hlt | ⟨heq, -⟩
    · exact hlt.le
    · exact heq.le
  have hat : r.sendAt ≤ r'.sendAt := by
    rwa [hv, hv', exactScore_le] at hscore
  rw [← Bool.not_eq_true, before_iff, Job.turn, Job.turn, Prod.Lex.toLex_lt_toLex, hp, hp']
  exact fun hc => hc.elim (lt_irrefl _) (fun hc => absurd hc.2 (not_lt.mpr hat))

/-- **The jobs that wait are in the order of the drain.** -/
theorem Promoted.sorted (h : Promoted cfg db₀ done sh) :
    ((sh.redis.waiting priorityOrder).filterMap db₀.row).Pairwise
      (fun r r' => before r' r = false) := by
  refine List.pairwise_filterMap.mpr (List.pairwise_flatMap.mpr ⟨fun p _ => h.members_sorted p, ?_⟩)
  refine priorityOrder_sorted.imp (fun {p q} hlt i hi j hj r hr r' hr' => ?_)
  obtain ⟨-, r₀, hr₀, rfl⟩ := (h.member p i).mp hi
  obtain ⟨-, r₁, hr₁, rfl⟩ := (h.member q j).mp hj
  cases hr.symm.trans hr₀
  cases hr'.symm.trans hr₁
  rw [← Bool.not_eq_true, before_iff, Job.turn, Job.turn, Prod.Lex.toLex_lt_toLex]
  exact fun hc => hc.elim (lt_asymm hlt) (fun hc => absurd hc.1 hlt.ne')

/-- **Due jobs are drained in order**, every one of them once. -/
theorem drains_in_order (hb : 1 ≤ cfg.schedulerBatchSize)
    (hq : ∀ p, sh.redis.queue p = SortedSet.empty) (hl : ∀ id, sh.redis.lock id = none) :
    DrainsInOrder cfg w sh := by
  have hinit := promoted_init cfg hq hl
  refine ⟨fun calls sh₁ hc => ?_, fun calls sh₁ sh' hc hlast => ?_⟩
  · obtain ⟨done, h, hlen⟩ := promoted_of_calls hinit hc
    obtain ⟨ids, hids⟩ := exists_promotes (show 0 ≤ cfg.schedulerBatchSize by omega) sh₁.db []
    refine ⟨by simpa using hlen.trans h.length_le, ?_⟩
    unfold promoteDueJobs
    exact ⟨_, ids, if_pos hids⟩
  · obtain ⟨done, h, -⟩ := promoted_of_calls hinit hc
    have h' := h.call hlast
    rw [List.append_nil] at h'
    have hdone : ∀ {id : JobId}, id ∈ done ↔
        ∃ r, sh.db.row id = some r ∧ due cfg sh'.db.now [] r = true := by
      rw [now_of_promote hlast]
      exact h.mem_done hb hlast
    let ids := sh'.redis.waiting priorityOrder
    have hids : ∀ id ∈ ids, ∃ r, sh.db.row id = some r := by
      intro id hid
      obtain ⟨r, hr, -⟩ := h'.due id (h'.mem_waiting.mp hid)
      exact ⟨r, hr⟩
    have hmap := ids_of_rows hids
    refine ⟨ids.filterMap sh.db.row, ?_, h'.sorted, fun clocks => ⟨fun rs hrs => ?_, fun hl => ?_⟩⟩
    · have hnodup : ((ids.filterMap sh.db.row).map Job.id).Nodup := by
        rw [hmap]
        exact h'.ready.nodup
      refine (List.perm_ext_iff_of_nodup hnodup.of_map
        (sh.db.jobs.nodup.of_map.filter _)).mpr (fun r => ?_)
      rw [List.mem_filterMap, List.mem_filter, ← Table.find?_key_iff]
      constructor
      · rintro ⟨id, hid, hr⟩
        obtain ⟨r', hr', hdue⟩ := hdone.mp (h'.mem_waiting.mp hid)
        cases hr.symm.trans hr'
        obtain rfl : r.id = id := Table.key_of_find? hr
        exact ⟨hr, hdue⟩
      · rintro ⟨hr, hdue⟩
        exact ⟨r.id, h'.mem_waiting.mpr (hdone.mpr ⟨r, hr, hdue⟩), hr⟩
    · rw [claims_of_ready h'.ready hrs]
      refine List.map_congr_left (fun i _ => ?_)
      rw [← List.getElem?_map, hmap]
    · exact claimCalls_returns hl clocks sh'

/-- Job `7` of medium priority, and job `8` of high priority, due later. -/
def twoDue : Shared where
  db := ⟨second, ⟨[insertJob {} 0 7 plainJob,
    insertJob {} 0 8 { plainJob with priority := .high, sendAt := second }], by decide⟩, [], []⟩
  redis := State.empty.redis

/-- Job `8` is claimed first, then job `7`, and then nothing. -/
theorem drains_in_order_two : DrainsInOrder {} 1 twoDue ∧
    (promoteDueJobs {} [7, 8] twoDue exactScore).bind (fun (sh', _) => claimCalls {} 1
      [(second, second), (second, second), (second, second)] sh') =
        some [some 8, some 7, none] :=
  ⟨drains_in_order (by decide) (fun _ => rfl) (fun _ => rfl), by decide +kernel⟩

end NotifyQueue
