import NotifyQueue.Lib.Retry
import NotifyQueue.Safety.Attempts
import NotifyQueue.Safety.ExactlyOnce
import NotifyQueue.Safety.Letters
import NotifyQueue.Safety.Shape

/-!
# Outcomes add up

In the runs that never reclaim a job `J` its row is what the sequential
`Retry.account` makes of its delivery outcomes since its creation or latest
replay.  `reported` is the system with each event reported along with what
`handle_failure` was called with, so that the outcomes can be read off the
history (`outcomes`).

`Agrees` relates the account to the row.  A worker computes an outcome from its
snapshot; that it computes the one of the account is `kept_outcome`: with nobody
reclaiming, the snapshot is of the worker's own claimed row and its count and cap
are current.
-/

namespace NotifyQueue

open KeyedTable

/-- An event, with the failure it came from. -/
abbrev Report := Event × Option (Time × String)

/-- The outcome of a delivery that a report tells of. -/
def Report.outcome? : Report → Option (Retry.Outcome Time String)
  | (.sent _ _, _) => some .success
  | (.deferred _ _, _) => some .deferral
  | (.retried _ _, some (time, error)) => some (.failure time error)
  | (.deadLettered (some _) _ _, some (time, error)) => some (.failure time error)
  | _ => none

/-- The history of `J`. -/
def jobReports (J : JobId) (h : List Report) : List Report :=
  h.filter (fun x => decide (x.1.job? = some J))

/-- The outcomes of `J` since its creation or its latest replay, newest first. -/
def outcomes (J : JobId) (h : List Report) : List (Retry.Outcome Time String) :=
  (Lts.since (fun x => x.1.isReplay) (jobReports J h)).filterMap Report.outcome?

/-- The cap of the job, and the backoff of `handle_failure`. -/
def retryPolicy (cfg : Settings) (cap : Int) : Retry.Policy Time :=
  ⟨cap, fun k time => time + retryDelay cfg k * second⟩

def JobStatus.phase : JobStatus → Retry.Phase
  | .sent => .done
  | .deadLettered => .dead
  | _ => .live

/-- The row says what the account says. -/
structure Agrees (l : Retry.Account Time String) (r : Job) : Prop where
  phase : l.phase = r.status.phase
  failures : l.failures = r.attemptCount
  lastError : l.lastError = r.errorMessage
  nextAttempt : l.nextAttempt = r.nextRetryAt
  dueAt : ∀ time, l.dueAt = some time → r.sendAt = time

variable {cfg : Settings} {s t : State} {a : Action} {es : List Event} {h : List Report}
  {J : JobId} {f : Option (Time × String)}

/-! ### Reading outcomes off the history -/

/-- The row of `J`, once there is one, agrees with the account of its outcomes. -/
structure Accounted (cfg : Settings) (J : JobId) (h : List Report) (s : State) : Prop where
  absent : s.row J = none → outcomes J h = []
  present : ∀ r, s.row J = some r → ∃ l,
    Retry.account (retryPolicy cfg r.maxAttempts) (outcomes J h) = some l ∧ Agrees l r

theorem Agrees.stay {l : Retry.Account Time String} {r r' : Job} (hl : Agrees l r)
    (hp : r'.status.phase = r.status.phase) (hn : r'.attemptCount = r.attemptCount)
    (he : r'.errorMessage = r.errorMessage) (ht : r'.nextRetryAt = r.nextRetryAt)
    (hd : r'.sendAt = r.sendAt) : Agrees l r' where
  phase := hl.phase.trans hp.symm
  failures := hl.failures.trans hn.symm
  lastError := hl.lastError.trans he.symm
  nextAttempt := hl.nextAttempt.trans ht.symm
  dueAt time h := hd.trans (hl.dueAt time h)

theorem Agrees.live {l : Retry.Account Time String} {r : Job} (hl : Agrees l r)
    (hc : r.status = .claimed) : l.phase = .live := by
  rw [hl.phase, hc]
  rfl

section
variable {r r' : Job} {k : List Report}

theorem Accounted.keep (hacc : Accounted cfg J h s) (hr : t.row J = s.row J)
    (ho : outcomes J k = outcomes J h) : Accounted cfg J k t := by
  refine ⟨fun hn => ?_, fun r hr' => ?_⟩
  · rw [ho]
    exact hacc.absent (hr.symm.trans hn)
  · rw [ho]
    exact hacc.present r (hr.symm.trans hr')

theorem Accounted.same (hacc : Accounted cfg J h s) (hb : s.row J = some r)
    (ha : t.row J = some r') (ho : outcomes J k = outcomes J h)
    (hmax : r'.maxAttempts = r.maxAttempts) (hag : ∀ l, Agrees l r → Agrees l r') :
    Accounted cfg J k t := by
  refine ⟨fun hn => (by cases hn.symm.trans ha), fun r₁ hr₁ => ?_⟩
  cases hr₁.symm.trans ha
  obtain ⟨l, hl, hagr⟩ := hacc.present r hb
  rw [ho, hmax]
  exact ⟨l, hl, hag l hagr⟩

theorem Accounted.outcome (hacc : Accounted cfg J h s) (hb : s.row J = some r)
    (ha : t.row J = some r') {o : Retry.Outcome Time String} (ho : outcomes J k = o :: outcomes J h)
    (hmax : r'.maxAttempts = r.maxAttempts) (hc : r.status = .claimed)
    (hag : ∀ l, Agrees l r → ∀ l', l.next (retryPolicy cfg r.maxAttempts) o = some l' →
      Agrees l' r') : Accounted cfg J k t := by
  refine ⟨fun hn => (by cases hn.symm.trans ha), fun r₁ hr₁ => ?_⟩
  cases hr₁.symm.trans ha
  obtain ⟨l, hl, hagr⟩ := hacc.present r hb
  have hnext := Retry.next_of_live (p := retryPolicy cfg r.maxAttempts) (o := o) (hagr.live hc)
  refine ⟨_, ?_, hag l hagr _ hnext⟩
  rw [ho, hmax, Retry.account, hl, Option.bind_some]
  exact hnext

end

theorem Agrees.fail {l l' : Retry.Account Time String} {r r' : Job} (hl : Agrees l r)
    (hc : r.status = .claimed) {time : Time} {error : String}
    (hnext : l.next (retryPolicy cfg r.maxAttempts) (.failure time error) = some l')
    (hn : r'.attemptCount = r.attemptCount + 1) (he : r'.errorMessage = some error)
    (hr : if r.maxAttempts ≤ (r.attemptCount + 1 : Nat) then
        r'.status = .deadLettered ∧ r'.nextRetryAt = r.nextRetryAt
      else r'.status = .pending ∧
        r'.sendAt = time + retryDelay cfg (r.attemptCount + 1) * second ∧
        r'.nextRetryAt = some r'.sendAt) : Agrees l' r' := by
  rw [Retry.next_of_live (hl.live hc)] at hnext
  cases hnext
  unfold Retry.Account.fail
  simp only [retryPolicy, hl.failures]
  split at hr
  · rename_i hcap
    rw [if_pos hcap]
    obtain ⟨hs, ht⟩ := hr
    exact ⟨by rw [hs]; rfl, hn.symm, he.symm, hl.nextAttempt.trans ht.symm,
      fun time h => by cases h⟩
  · rename_i hcap
    rw [if_neg hcap]
    obtain ⟨hs, hd, ht⟩ := hr
    refine ⟨by rw [hs]; exact hl.live hc, hn.symm, he.symm, by rw [ht, hd], fun time h => ?_⟩
    cases h
    exact hd

/-- The status an outcome leaves. -/
def Event.result? : Event → Option JobStatus
  | .sent _ _ => some .sent
  | .retried _ _ | .deferred _ _ => some .pending
  | .deadLettered _ _ _ => some .deadLettered
  | _ => none

/-- A job that is never reclaimed is dead-lettered from `claimed`. -/
theorem Kept.no_letter (hk : Kept s J) {before after : Option Job} {e : List Event}
    {ls : List DeadLetter} (hE : Effect cfg s J a before after e ls) (hb : s.row J = before)
    (hd : deadCount before = 1) : ls = [] := by
  cases hE with
  | @giveUp w env job r error hpc hid =>
    obtain ⟨r₀, hr₀, hc, -⟩ := hk.row w (some job) (by rw [State.stake, hpc, ← hid]; rfl)
    cases hr₀.symm.trans hb
    rw [deadCount_alive (by rw [hc]; decide)] at hd
    cases hd
  | @bury k env row rest r hpc hid =>
    exact absurd hid (hk.recovered k row (recovered_of_burying hpc))
  | _ => rfl

end NotifyQueue
