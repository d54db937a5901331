import NotifyQueue.Safety.QueueEntry
import NotifyQueue.Safety.RateLimit

/-!
# Counters expire

Only `INCR_WITH_TTL` sets a time to live, when the counter comes to `1`.  A
`DECR` leaves the time to live of its counter alone, but Redis makes the counter
anew when there is none, with `-1` and no time to live, and the next increment
comes to `0`.  `undoGuard` is the condition that this does not happen: the
counter is still there whenever it is decremented.  A `DECR` that does not meet
it leaves a counter behind that never expires (`not_expiring_of_undo`).
-/

namespace NotifyQueue

/-- Every counter has a time to live. -/
def Redis.Expiring (rd : Redis) : Prop :=
  ∀ key c, rd.counter? key = some c → c.expiresAt ≠ none

/-- Redis keeps its data, and a counter is still there when it is decremented. -/
def undoGuard (s : State) : Action → Bool
  | .redisFault _ _ _ => false
  | .worker w (.run _) =>
    (s.workers w).pc.undoes.all (fun key => (s.redis.counter? key).isSome)
  | _ => true

variable {cfg : Settings} {s t : State} {a : Action} {es h : List Event} {rd : Redis}
  {key : WindowKey}

/-! ### One command -/

theorem counter?_of_forever {c : Counter} (hc : rd.counter key = some c)
    (hf : c.expiresAt = none) : rd.counter? key = some c := by
  rw [Redis.counter?, hc]
  simp [hf]

/-- What has expired does not matter. -/
theorem expiring_iff : rd.Expiring ↔ ∀ key c, rd.counter key = some c → c.expiresAt ≠ none := by
  constructor
  · intro he key c hc hf
    exact he key c (counter?_of_forever hc hf) hf
  · intro he key c hc
    exact he key c (Option.filter_eq_some_iff.mp hc).1

theorem Redis.Expiring.set (he : rd.Expiring) {c : Counter} (hc : c.expiresAt ≠ none) :
    ({ rd with counter := Function.update rd.counter key (some c) } : Redis).Expiring := by
  rw [expiring_iff] at he ⊢
  intro key' c' hc'
  by_cases hk : key' = key
  · subst hk
    cases (Function.update_self (f := rd.counter) key' (some c)).symm.trans hc'
    exact hc
  · exact he key' c' ((Function.update_of_ne hk _ _).symm.trans hc')

/-- **`INCR_WITH_TTL`**: a counter that is new comes to `1`. -/
theorem expiring_incr (he : rd.Expiring) : (rd.incrWithTtl key).2.Expiring := by
  refine he.set ?_
  cases hc : rd.counter? key with
  | none => simp
  | some c =>
    simp only [Option.getD_some]
    split
    · exact Option.some_ne_none _
    · exact he key c hc

/-- **`DECR`** on a counter that is there. -/
theorem expiring_decr (he : rd.Expiring) (hfound : (rd.counter? key).isSome) :
    (rd.decr key).Expiring := by
  obtain ⟨c, hc⟩ := Option.isSome_iff_exists.mp hfound
  refine he.set ?_
  rw [hc]
  exact he key c hc

/-- `DECR` on a counter that is not there. -/
theorem not_expiring_decr (hgone : rd.counter? key = none) : ¬ (rd.decr key).Expiring := by
  rw [expiring_iff]
  intro he
  refine he key ⟨-1, none⟩ ?_ rfl
  simp only [Redis.decr, hgone, Function.update_self]
  rfl

/-! ### One step -/

theorem WorkerPc.undoes_eq_some {pc : WorkerPc} (h : pc.undoes = some key) :
    ∃ job checkedAt, pc = .undoing job checkedAt ∧ windowKey job.recipient checkedAt = key := by
  cases pc with
  | undoing job checkedAt => exact ⟨job, checkedAt, rfl, Option.some.inj h⟩
  | _ => cases h

theorem expiring_worker {w : WorkerId} {env : Env}
    (hok : undoGuard s (.worker w (.run env)) = true)
    (hn : workerNext cfg w env s.toShared (s.workers w).pc =
      some (t.toShared, (t.workers w).pc, es)) (he : s.redis.Expiring) : t.redis.Expiring := by
  rcases workerNext_counter hn with
    ⟨job, -, hredis, -⟩ | ⟨job, checkedAt, hpc, hredis, -⟩ | ⟨-, hc, -⟩
  · rw [hredis]
    exact expiring_incr he
  · rw [hredis]
    refine expiring_decr he ?_
    rwa [undoGuard, hpc, WorkerPc.undoes, Option.all_some] at hok
  · rw [expiring_iff] at he ⊢
    rwa [hc]

theorem expiring_step (hok : undoGuard s a = true) (hstep : step cfg s a = some (t, es))
    (he : s.redis.Expiring) : t.redis.Expiring := by
  have hquiet : t.redis.counter = s.redis.counter → t.redis.Expiring := by
    intro hc
    rw [expiring_iff] at he ⊢
    rwa [hc]
  cases redis_step hstep with
  | worker hn => exact expiring_worker hok hn he
  | scheduler hn => exact hquiet (schedulerNext_counter hn)
  | idle _ _ _ _ hc => exact hquiet hc
  | fault => cases hok

/-- **A `DECR` that comes too late** leaves a counter that never expires. -/
theorem not_expiring_of_undo {w : WorkerId} {env : Env}
    (hstep : step cfg s (.worker w (.run env)) = some (t, es))
    (hu : (s.workers w).pc.undoes = some key) (hgone : s.redis.counter? key = none) :
    ¬ t.redis.Expiring := by
  obtain ⟨job, checkedAt, hpc, rfl⟩ := WorkerPc.undoes_eq_some hu
  have hn := worker_run hstep
  rw [hpc] at hn
  obtain ⟨hsh, -⟩ := Prod.mk.inj (Option.some.inj hn)
  rw [show t.redis = s.redis.decr (windowKey job.recipient checkedAt) from
    (congrArg Shared.redis hsh).symm]
  exact not_expiring_decr hgone

/-! ### Every run -/

/-- In the runs whose steps meet `ok`, from a start at which every counter has a
time to live, every counter has one. -/
def CountersExpire (cfg : Settings) (ok : State → Action → Bool) : Prop :=
  ∀ s₀ h s, Initial s₀ → s₀.redis.Expiring → Lts.Path (system cfg) ok s₀ h s → s.redis.Expiring

/-- **Every counter expires** in every run in which no counter is decremented
after it has expired; and a decrement after that leaves one that does not. -/
theorem counters_expire (cfg : Settings) : CountersExpire cfg undoGuard ∧
    ∀ s t w env es key, step cfg s (.worker w (.run env)) = some (t, es) →
      (s.workers w).pc.undoes = some key → s.redis.counter? key = none → ¬ t.redis.Expiring := by
  refine ⟨fun s₀ h s _ he hp => ?_, fun s t w env es key hstep hu hgone =>
    not_expiring_of_undo hstep hu hgone⟩
  exact hp.invariant (I := fun _ s => s.redis.Expiring) he
    (fun _ _ _ _ _ _ he hok hstep => expiring_step hok hstep he)

/-- With one delivery an hour: worker `1` delivers job `7`, worker `2` is refused
job `8` for the same recipient. -/
def refusal : List Action :=
  .createJob 7 plainJob :: promotion 0 7 ++ claim 1 ++ [work 1, work 1] ++
    .createJob 8 plainJob :: promotion 1 8 ++ claim 2 ++ [work 2, work 2]

theorem expiring_empty : State.empty.redis.Expiring := by
  intro key c hc
  cases hc

/-- The decrement comes at once. -/
theorem counters_expire_refusal : ∃ h s,
    Lts.Path (system { rateLimitPerHour := 1 }) undoGuard State.empty h s ∧
    (s.redis.counter? ⟨"user@example.com", 0⟩).map Counter.value = some 1 ∧
    s.redis.Expiring := by
  have hrun : (((system { rateLimitPerHour := 1 }).exec undoGuard State.empty
      (refusal ++ [work 2])).map (fun p : State × List Event =>
        (p.1.redis.counter? ⟨"user@example.com", 0⟩).map Counter.value)) = some (some 1) := by
    decide +kernel
  obtain ⟨⟨s, h⟩, he, hc⟩ := Option.map_eq_some_iff.mp hrun
  have hp := Lts.path_of_exec _ he
  exact ⟨h, s, hp, hc, (counters_expire _).1 _ h s initial_empty expiring_empty hp⟩

/-- Worker `2` stalls for longer than the two hours the counter lives, and then decrements it. -/
theorem not_counters_expire : ¬ CountersExpire { rateLimitPerHour := 1 } faultless := by
  intro hexpire
  have hrun : (((system { rateLimitPerHour := 1 }).exec faultless State.empty
      (refusal ++ [clock (2 * hour + second), work 2])).map (fun p : State × List Event =>
        (p.1.redis.counter? ⟨"user@example.com", 0⟩).map Counter.expiresAt)) =
      some (some none) := by decide +kernel
  obtain ⟨⟨s, h⟩, he, hc⟩ := Option.map_eq_some_iff.mp hrun
  obtain ⟨c, hc, hnone⟩ := Option.map_eq_some_iff.mp hc
  exact hexpire _ h s initial_empty expiring_empty (Lts.path_of_exec _ he) _ c hc hnone

end NotifyQueue
