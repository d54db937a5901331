import NotifyQueue.Job.Calls
import NotifyQueue.Safety.QueueEntry

/-!
# The best job is claimed

A job is claimable when it is in Redis, its row is `queued` and its lock is free.
`ClaimsBest` is that a call of `claim_next_job` takes a claimable job of the
highest priority there is and of the least score, and nothing only when there is
none.  The call looks at one entry a queue, so an entry in front of that job which
is not claimable hides it: `HeadClaimable` is the condition that there is none,
and it is exact for every state whatsoever.
-/

namespace NotifyQueue

open KeyedTable

/-- `id` is in the queue of `p` and can be claimed. -/
structure Claimable (sh : Shared) (p : Priority) (id : JobId) : Prop where
  member : id ∈ sh.redis.queue p
  free : sh.redis.lock? id = none
  queued : ∃ r, sh.db.row id = some r ∧ r.status = .queued

/-- No claimable job has a higher priority, or the same one and a smaller score. -/
structure Best (sh : Shared) (p : Priority) (id : JobId) : Prop where
  claimable : Claimable sh p id
  priority : ∀ q j, Claimable sh q j → p.rank ≤ q.rank
  score : ∀ j s v, Claimable sh p j → (sh.redis.queue p).score? id = some s →
    (sh.redis.queue p).score? j = some v → s ≤ v

/-- What a call that takes `sh` to `sh'` should return. -/
inductive BestTaken (sh sh' : Shared) : Option JobId → Prop
  | some {p : Priority} {id : JobId} : Best sh p id → id ∉ sh'.redis.queue p →
      BestTaken sh sh' (some id)
  | none : (∀ p id, ¬ Claimable sh p id) → BestTaken sh sh' none

/-- `claim_next_job` takes the best claimable job of `sh`. -/
def ClaimsBest (cfg : Settings) (w : WorkerId) (sh : Shared) : Prop :=
  ∃ sh' r, claimNextJob cfg w sh = some (sh', r) ∧ BestTaken sh sh' r

/-- In the first queue with a claimable job the first entry is claimable, and Redis
accepts the time to live of the lock if there is one to take. -/
structure HeadClaimable (cfg : Settings) (sh : Shared) : Prop where
  ttl : 0 < cfg.jobLockTtlSeconds ∨ ∀ p id, id ∉ sh.redis.queue p
  first : ∀ p j, Claimable sh p j → (∀ q i, Claimable sh q i → p.rank ≤ q.rank) →
    ∃ id, sh.redis.first? p = some id ∧ Claimable sh p id

variable {cfg : Settings} {w : WorkerId} {sh sh' : Shared} {p q : Priority} {id J : JobId}

/-! ### First entries -/

theorem first?_eq_some : sh.redis.first? p = some id ↔
    ∃ z, (sh.redis.queue p).popMin = some (id, z) := by
  rw [Redis.first?, Redis.zpopmin]
  cases (sh.redis.queue p).popMin with
  | none => simp
  | some e =>
    obtain ⟨j, z⟩ := e
    simp

theorem mem_of_first? (h : sh.redis.first? p = some id) : id ∈ sh.redis.queue p := by
  obtain ⟨z, hz⟩ := first?_eq_some.mp h
  exact (SortedSet.mem_of_popMin hz).mpr (Or.inl rfl)

theorem exists_first? (h : J ∈ sh.redis.queue p) : ∃ id, sh.redis.first? p = some id := by
  obtain ⟨id, z, hz⟩ := SortedSet.popMin_of_mem h
  exact ⟨id, first?_eq_some.mpr ⟨z, hz⟩⟩

theorem claimable_of_first? (h : sh.redis.first? p = some id) :
    Claimable sh p id ↔ sh.passes id = true := by
  rw [passes_iff]
  exact ⟨fun hc => ⟨hc.free, hc.queued⟩, fun hc => ⟨mem_of_first? h, hc.1, hc.2⟩⟩

theorem score_le_of_first? {s v : ℚ} (h : sh.redis.first? p = some id)
    (hs : (sh.redis.queue p).score? id = some s) (hv : (sh.redis.queue p).score? J = some v) :
    s ≤ v := by
  obtain ⟨z, hz⟩ := first?_eq_some.mp h
  exact SortedSet.le_of_popMin hz hs hv

/-! ### The order of the queues -/

theorem Priority.rank_injective {p q : Priority} (h : p.rank = q.rank) : p = q := by
  cases p <;> cases q <;> first | rfl | cases h

theorem mem_priorityOrder (p : Priority) : p ∈ priorityOrder := by cases p <;> decide

theorem priorityOrder_nodup : priorityOrder.Nodup := by decide

theorem priorityOrder_sorted : priorityOrder.Pairwise (fun p q => p.rank < q.rank) := by decide

theorem mem_before {before after : List Priority} (h : priorityOrder = before ++ p :: after) :
    q ∈ before ↔ q.rank < p.rank := by
  have hs := priorityOrder_sorted
  rw [h, List.pairwise_append] at hs
  obtain ⟨-, hafter, hlt⟩ := hs
  refine ⟨fun hq => hlt q hq p List.mem_cons_self, fun hlt' => ?_⟩
  have hq := mem_priorityOrder q
  rw [h, List.mem_append, List.mem_cons] at hq
  rcases hq with hq | rfl | hq
  · exact hq
  · exact absurd hlt' (lt_irrefl _)
  · exact absurd (List.rel_of_pairwise_cons hafter hq) (lt_asymm hlt')

/-! ### Exactly when -/

/-- The queue of a higher priority than `p` is tried before, and rejected. -/
theorem head_of_best (h : HeadClaimable cfg sh) (hc : Claimable sh p J)
    (hbest : ∀ q i, Claimable sh q i → p.rank ≤ q.rank) : ¬ sh.Rejects p := by
  obtain ⟨id, hfirst, hid⟩ := h.first p J hc hbest
  intro hrej
  have := (claimable_of_first? hfirst).mp hid
  rw [hrej id hfirst] at this
  cases this

theorem exists_best (hc : Claimable sh p J) : ∃ q j, Claimable sh q j ∧
    ∀ q' i, Claimable sh q' i → q.rank ≤ q'.rank := by
  by_contra hno
  have hall : ∀ n q, q.rank ≤ n → ∀ j, ¬ Claimable sh q j := by
    intro n
    induction n with
    | zero =>
      intro q hq j hj
      exact hno ⟨q, j, hj, fun _ _ _ => by omega⟩
    | succ n ih =>
      intro q hq j hj
      refine hno ⟨q, j, hj, fun q' i hi => ?_⟩
      by_contra hlt
      exact ih q' (by omega) i hi
  exact hall p.rank p le_rfl J hc

theorem claimsBest_of_head (h : HeadClaimable cfg sh) : ClaimsBest cfg w sh := by
  obtain ⟨sh', r, hr⟩ : ∃ sh' r, claimNextJob cfg w sh = some (sh', r) := by
    rcases h.ttl with hl | hempty
    · exact claimFrom_returns hl _ _
    · refine ⟨sh, none, claimFrom_empty (fun p _ => ?_)⟩
      by_contra hne
      obtain ⟨id, hid⟩ := Option.ne_none_iff_exists'.mp hne
      exact hempty p id (mem_of_first? hid)
  refine ⟨sh', r, hr, ?_⟩
  cases claimFrom_result priorityOrder_nodup hr with
  | none hall =>
    refine .none (fun p J hc => ?_)
    obtain ⟨q, j, hq, hbest⟩ := exists_best hc
    exact head_of_best h hq hbest (hall q (mem_priorityOrder q))
  | @some before after p id hps hbefore hfirst hpasses hgone =>
    have hid := (claimable_of_first? hfirst).mpr hpasses
    refine .some ⟨hid, fun q j hj => ?_, fun j s v _ => score_le_of_first? hfirst⟩ hgone
    obtain ⟨q', j', hq', hbest⟩ := exists_best hj
    refine le_trans ?_ (hbest q j hj)
    by_contra hlt
    exact head_of_best h hq' hbest (hbefore q' ((mem_before hps).mpr (not_le.mp hlt)))

theorem head_of_claimsBest (h : ClaimsBest cfg w sh) : HeadClaimable cfg sh := by
  obtain ⟨sh', r, hr, hbest⟩ := h
  refine ⟨?_, fun p J hJ hp => ?_⟩
  · by_contra hno
    rw [not_or, not_lt] at hno
    obtain ⟨hl, hmem⟩ := hno
    refine hmem (fun p id hid => ?_)
    obtain ⟨j, hj⟩ := exists_first? hid
    cases (first?_of_refused hl hr p (mem_priorityOrder p)).symm.trans hj
  · cases hbest with
    | none hnone => exact absurd hJ (hnone p J)
    | @some q id hid hgone =>
      have hqp : q = p := Priority.rank_injective
        (le_antisymm (hid.priority p J hJ) (hp q id hid.claimable))
      subst hqp
      rcases (claimFrom_queue priorityOrder_nodup hr).1 q with hsame | ⟨j, hfirst, hdrop⟩
      · rw [hsame] at hgone
        exact absurd hid.claimable.member hgone
      · obtain rfl : id = j := (hdrop id hid.claimable.member).resolve_right hgone
        exact ⟨id, hfirst, hid.claimable⟩

/-- **The best job is claimed exactly when nothing hides it**, in every state. -/
theorem claims_best (cfg : Settings) (w : WorkerId) (sh : Shared) :
    ClaimsBest cfg w sh ↔ HeadClaimable cfg sh := ⟨head_of_claimsBest, claimsBest_of_head⟩

/-- The best job is claimed in every state that the steps `ok` can reach. -/
def AlwaysClaimsBest (cfg : Settings) (ok : State → Action → Bool) : Prop :=
  ∀ h s w, Lts.Run (system cfg) ok h s → ClaimsBest cfg w s.toShared

/-- The requeue sweep of scheduler `1` reads job `7` and stalls until worker `1`
has claimed it, and adds it again; job `8` is promoted behind it. -/
def staleEntry : List Action :=
  .createJob 7 { plainJob with priority := .high } :: promotion 0 7 ++
    [clock (31 * second), schedule 1, schedule 1, schedule 1, schedule 1 { batch := [7] },
      work 1, work 1, work 1, schedule 1,
      .createJob 8 { plainJob with priority := .high, sendAt := second }] ++ promotion 2 8

/-- Worker `2` pops job `7`, which is locked, and returns without job `8`. -/
theorem not_claims_best : ¬ AlwaysClaimsBest {} faultless := by
  intro hbest
  have hrun : ((system {}).exec faultless State.empty staleEntry).map
      (fun p : State × List Event => ((claimNextJob {} 2 p.1.toShared).map Prod.snd,
        decide (8 ∈ p.1.redis.queue .high), p.1.toShared.passes 8)) =
      some (some none, true, true) := by decide +kernel
  obtain ⟨⟨s, h⟩, he, hf⟩ := Option.map_eq_some_iff.mp hrun
  obtain ⟨hcall, hf⟩ := Prod.mk.inj hf
  obtain ⟨hmem, hpasses⟩ := Prod.mk.inj hf
  obtain ⟨sh', r, hr, htaken⟩ := hbest h s 2 (Lts.run_of_exec initial_empty he)
  dsimp only at hcall
  rw [hr] at hcall
  cases Option.some.inj hcall
  obtain ⟨hfree, hqueued⟩ := passes_iff.mp hpasses
  cases htaken with
  | none hnone => exact hnone .high 8 ⟨of_decide_eq_true hmem, hfree, hqueued⟩

end NotifyQueue
