import NotifyQueue.Job.Holdings

/-!
# What holds of every row and of every copy of it

No guard here: these hold in every run.  The owner column of a row is set
exactly while the job is claimed or sent (`Job.Owned`), no statement ever
changes what a dead letter is made of or the cap (`Job.fixed`), and so the
snapshots of the workers and the rows the schedulers have recovered agree with
the row on these (`Known`), however old they are.
-/

namespace NotifyQueue

open KeyedTable

/-- `worker_id` is set exactly while the job is claimed or sent. -/
def Job.Owned (r : Job) : Prop := r.workerId ≠ none ↔ r.status = .claimed ∨ r.status = .sent

/-- What no statement changes: the fields of a dead letter, and the cap. -/
def Job.fixed (r : Job) : LetterFields × Int := (r.letterFields, r.maxAttempts)

def RecoveredRow.fixed (x : RecoveredRow) : LetterFields × Int := (x.toLetterFields, x.maxAttempts)

variable {cfg : Settings} {s t : State} {a : Action} {es : List Event} {J : JobId}
  {before after : Option Job} {e : List Event} {ls : List DeadLetter}

theorem Job.Owned.not_active {r : Job} (h : r.Owned) (hw : r.workerId = none) :
    r.status ≠ .claimed ∧ r.status ≠ .sent := by
  refine ⟨fun hc => ?_, fun hc => ?_⟩
  · exact h.mpr (Or.inl hc) hw
  · exact h.mpr (Or.inr hc) hw

theorem Job.Owned.workerId_eq_none {r : Job} (h : r.Owned) (hc : r.status ≠ .claimed)
    (hs : r.status ≠ .sent) : r.workerId = none := by
  by_contra hw
  rcases h.mp hw with h | h
  · exact hc h
  · exact hs h

theorem Job.owned_of_none {r : Job} (status : JobStatus) (hw : r.workerId = none)
    (hst : r.status = status) (hne : status ≠ .claimed ∧ status ≠ .sent) : r.Owned := by
  refine ⟨fun h => absurd hw h, fun h => ?_⟩
  rw [hst] at h
  rcases h with h | h
  · exact absurd h hne.1
  · exact absurd h hne.2

/-- One step keeps the owner column in line with the status. -/
theorem Effect.owned (hE : Effect cfg s J a before after e ls)
    (h : ∀ r, before = some r → r.Owned) : ∀ r, after = some r → r.Owned := by
  intro r' hr'
  cases hE with
  | stay | deliver => exact h r' hr'
  | create | retry | defer | reclaim | replay =>
    cases hr'
    exact Job.owned_of_none .pending rfl rfl (by decide)
  | giveUp | bury =>
    cases hr'
    exact Job.owned_of_none .deadLettered rfl rfl (by decide)
  | @promote k env r _ _ hp =>
    cases hr'
    have hw : r.workerId = none :=
      (h r rfl).workerId_eq_none (by rw [hp]; decide) (by rw [hp]; decide)
    exact Job.owned_of_none .queued hw rfl (by decide)
  | claim =>
    cases hr'
    exact ⟨fun _ => Or.inl rfl, fun _ => Option.some_ne_none _⟩
  | @beat w r hc hw =>
    cases hr'
    exact h r rfl
  | send _ _ _ _ hw =>
    cases hr'
    exact ⟨fun _ => Or.inr rfl, fun _ => hw⟩

/-- **A row never goes away, and keeps its fixed columns** and its priority. -/
theorem Effect.fixed (hE : Effect cfg s J a before after e ls) {r : Job}
    (hr : before = some r) :
    ∃ r', after = some r' ∧ r'.fixed = r.fixed ∧ r'.priority = r.priority := by
  cases hE with
  | create => cases hr
  | stay | deliver => exact ⟨r, hr, rfl, rfl⟩
  | _ =>
    cases hr
    exact ⟨_, rfl, rfl, rfl⟩

theorem row_fixed (h : step cfg s a = some (t, es)) {r : Job} (hr : s.row J = some r) :
    ∃ r', t.row J = some r' ∧ r'.fixed = r.fixed := by
  obtain ⟨ls, hE, -⟩ := step_affects h J
  obtain ⟨r', hr', hf, -⟩ := hE.fixed hr
  exact ⟨r', hr', hf⟩

/-- The copies of the row of `J` agree with it on its fixed columns. -/
structure Known (s : State) (J : JobId) : Prop where
  snapshot : ∀ w job, s.stake w = some ⟨J, some job⟩ →
    ∃ r, s.row J = some r ∧ r.fixed = job.fixed
  recovered : ∀ k x, x ∈ s.recovered k → x.id = J →
    ∃ r, s.row J = some r ∧ r.fixed = x.fixed

/-- What holds of every job in every run. -/
structure Sound (s : State) (J : JobId) : Prop where
  owned : ∀ r, s.row J = some r → r.Owned
  known : Known s J
  buries : ∀ k, BuriesAtCap (s.schedulers k)
  once : ∀ k, RecoversOnce (s.schedulers k)

theorem stake_initial (hs : Initial s) (w : WorkerId) : s.stake w = none := by
  rw [State.stake, hs.workers]
  rfl

theorem recovered_initial (hs : Initial s) (k : SchedulerId) : s.recovered k = [] := by
  rw [State.recovered, hs.schedulers]
  rfl

theorem row_initial (hs : Initial s) (J : JobId) : s.row J = none := by
  rw [State.row, Db.row, hs.jobs]
  rfl

/-- **An invariant of the rows of a job**: at the start there is none, so the
step is all there is to show. -/
theorem run_rows {ok : State → Action → Bool} {P : List Event → State → Job → Prop}
    {h : List Event} (hr : Lts.Run (system cfg) ok h s)
    (hstep : ∀ h s a t es, Lts.Run (system cfg) ok h s → (∀ r, s.row J = some r → P h s r) →
      ok s a = true → step cfg s a = some (t, es) → ∀ r, t.row J = some r → P (es ++ h) t r) :
    ∀ r, s.row J = some r → P h s r := by
  refine hr.invariant (I := fun h s => ∀ r, s.row J = some r → P h s r) (fun s hi r hrow => ?_)
    hstep
  rw [row_initial hi] at hrow
  cases hrow

theorem letters_initial (hs : Initial s) (J : JobId) : s.letters J = [] := by
  rw [State.letters, Db.letters, hs.letters]
  rfl

theorem sound_init (hs : Initial s) (J : JobId) : Sound s J where
  owned r hr := by
    rw [row_initial hs] at hr
    cases hr
  known := by
    refine ⟨fun w job hw => ?_, fun k x hx => ?_⟩
    · rw [stake_initial hs] at hw
      cases hw
    · rw [recovered_initial hs] at hx
      cases hx
  buries k := by
    rw [hs.schedulers]
    intro row rest hb
    cases hb
  once k := by
    rw [hs.schedulers]
    exact List.nodup_nil

theorem known_step (h : step cfg s a = some (t, es)) (hk : Known s J) : Known t J where
  snapshot w job hw := by
    have hkeep : ∀ r, s.row J = some r → r.fixed = job.fixed →
        ∃ r', t.row J = some r' ∧ r'.fixed = job.fixed := by
      intro r hr hf
      obtain ⟨r', hr', hf'⟩ := row_fixed h hr
      exact ⟨r', hr', hf'.trans hf⟩
    rcases stake_step h hw with ⟨hst, -⟩ | ⟨-, hnone, -⟩ | ⟨-, hsnap, hr, -, -⟩
    · obtain ⟨r, hr, hf⟩ := hk.snapshot w job hst
      exact hkeep r hr hf
    · cases hnone
    · cases hsnap
      exact hkeep job hr rfl
  recovered k x hx hid := by
    subst hid
    rcases recovered_step h hx with hx | ⟨r, hr, rfl, -⟩
    · obtain ⟨r, hr, hf⟩ := hk.recovered k x hx rfl
      obtain ⟨r', hr', hf'⟩ := row_fixed h hr
      exact ⟨r', hr', hf'.trans hf⟩
    · exact ⟨r, hr, rfl⟩

theorem sound_step (h : step cfg s a = some (t, es)) (hs : Sound s J) : Sound t J where
  owned := by
    obtain ⟨ls, hE, -⟩ := step_affects h J
    exact hE.owned hs.owned
  known := known_step h hs.known
  buries k := buries_step h (hs.buries k)
  once k := recoversOnce_step h (hs.once k)

/-- **Every run keeps every row and every copy sound.** -/
theorem run_sound {ok : State → Action → Bool} {h : List Event}
    (hr : Lts.Run (system cfg) ok h s) (J : JobId) : Sound s J :=
  hr.invariant (I := fun _ s => Sound s J) (fun _ hi => sound_init hi J)
    (fun _ _ _ _ _ _ hs _ hstep => sound_step hstep hs)

end NotifyQueue
