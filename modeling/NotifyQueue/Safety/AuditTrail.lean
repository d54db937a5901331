import NotifyQueue.Safety.Letters
import NotifyQueue.Safety.QueueEntry
import NotifyQueue.Safety.Webhooks

/-!
# The audit trail

A process that has committed a transition has a `Duty`: to call `fire_webhook`,
and then the attempts of the call, one after another.  Each duty that is done
leaves its trace, an event or a row of `webhook_log`, and may be what the next
one comes from.

So there is a chain for each job and status: transitions, dispatches, first
attempts, second attempts.  `Outstanding` compares two neighbours of the chain:
what the one counts more than the other is in the hands of a process, or has
been dropped by an exception or a crash.
-/

namespace NotifyQueue

open KeyedTable Handoff

/-- What a process has still to do for a transition it has committed: to call
`fire_webhook`, or to make an attempt of the call. -/
inductive Duty
  | announce (n : Notice)
  | attempt (n : Notice) (number : Nat)

def Duty.notice : Duty → Notice
  | .announce n | .attempt n _ => n

def WorkerPc.duty : WorkerPc → Option Duty
  | .releasing _ (some n) => some (.announce n)
  | .firing n number => some (.attempt n number)
  | _ => none

def SchedulerPc.duty : SchedulerPc → Option Duty
  | .releasing n _ => some (.announce n)
  | .firing n number _ => some (.attempt n number)
  | _ => none

/-- The duty of a process. -/
def State.duty (s : State) : Party → Option Duty
  | .worker w => (s.workers w).pc.duty
  | .scheduler k => (s.schedulers k).duty
  | .outside => none

/-- The copies of rows that a process has. -/
def WorkerPc.copies (pc : WorkerPc) : List LetterFields :=
  (pc.stake.bind Stake.snapshot).toList.map Job.letterFields

def SchedulerPc.copies (pc : SchedulerPc) : List LetterFields :=
  pc.recovered.map RecoveredRow.toLetterFields

def State.copies (s : State) : Party → List LetterFields
  | .worker w => (s.workers w).pc.copies
  | .scheduler k => (s.schedulers k).copies
  | .outside => []

/-- The text of a callback URL that is called. -/
def called (url : Option String) : Bool := url.any (fun url => decide (url ≠ ""))

/-- An answer after which there is no further attempt. -/
def answers (http : Option Nat) : Bool := http.any (fun status => decide (status < 500))

/-- The attempt is made. -/
def Notice.posts (cfg : Settings) (n : Notice) (number : Nat) : Bool :=
  called n.callbackUrl && decide (number ≤ cfg.webhookMaxAttempts)

/-- The duty that follows an attempt. -/
def Notice.next (cfg : Settings) (n : Notice) (number : Nat) (http : Option Nat) : Option Duty :=
  if answers http then none
  else if number < cfg.webhookMaxAttempts then some (.attempt n (number + 1))
  else none

/-- How a step of a process changes its duty, with the rows it logs and its
events: the process has the copies `copies`, and `aborts` tells an exception or a crash. -/
inductive DutyStep (cfg : Settings) (copies : List LetterFields) (aborts : Bool) :
    Option Duty → Option Duty → List WebhookLog → List Event → Prop
  | quiet {es : List Event} : (∀ e ∈ es, e.announced = none ∧ e.dispatch = none) →
      DutyStep cfg copies aborts none none [] es
  | commit {n : Notice} {e : Event} {copy : LetterFields} : copy ∈ copies →
      copy.id = n.jobId → copy.callbackUrl = n.callbackUrl →
      e.announced = some (n.jobId, n.status) →
      DutyStep cfg copies aborts none (some (.announce n)) [] [e]
  | announce {n : Notice} :
      DutyStep cfg copies aborts (some (.announce n)) (some (.attempt n 1)) []
        [.dispatched n.jobId n.status]
  | post {n : Notice} {number : Nat} {url : String} {http : Option Nat} :
      n.callbackUrl = some url → n.posts cfg number = true →
      DutyStep cfg copies aborts (some (.attempt n number)) (n.next cfg number http)
        [⟨n.jobId, url, n.status, http, number⟩] []
  | skip {n : Notice} {number : Nat} : n.posts cfg number = false →
      DutyStep cfg copies aborts (some (.attempt n number)) none [] []
  | keep {d : Option Duty} : DutyStep cfg copies aborts d d [] []
  | drop {d : Option Duty} : aborts = true → DutyStep cfg copies aborts d none [] []

/-- Rows of `webhook_log`, by their transition and attempt. -/
def logged (J : JobId) (status : StatusChange) (number : Nat) (log : List WebhookLog) : Nat :=
  log.countP (fun l => decide (l.jobId = J ∧ l.statusChange = status ∧ l.attempt = number))

/-- Those of them that call for another attempt. -/
def unanswered (J : JobId) (status : StatusChange) (number : Nat) (log : List WebhookLog) : Nat :=
  log.countP (fun l => decide (l.jobId = J ∧ l.statusChange = status ∧ l.attempt = number) &&
    !answers l.httpStatus)

variable {cfg : Settings} {s t : State} {a : Action} {es h : List Event} {J : JobId}
  {status : StatusChange} {ok : State → Action → Bool}

/-! ### Duties over one `await` -/

/-- **One attempt of `fire_webhook`.** -/
theorem fireWebhook_cases {env : Env} {db db' : Db} {n : Notice} {number : Nat}
    {next : Option Nat} (h : fireWebhook cfg env db n number = (db', next)) :
    (n.posts cfg number = false ∧ db' = db ∧ next = none) ∨
    ∃ url, n.callbackUrl = some url ∧ n.posts cfg number = true ∧
      db'.webhookLog = db.webhookLog ++ [⟨n.jobId, url, n.status, env.http, number⟩] ∧
      next.map (Duty.attempt n) = n.next cfg number env.http := by
  unfold fireWebhook at h
  split at h
  · rename_i hurl
    cases h
    exact Or.inl ⟨by rw [Notice.posts, hurl]; rfl, rfl, rfl⟩
  · rename_i url hurl
    split at h
    · rename_i hno
      cases h
      refine Or.inl ⟨?_, rfl, rfl⟩
      rw [Notice.posts, hurl]
      rcases hno with rfl | hlt
      · rfl
      · simp only [decide_eq_false (Nat.not_le.mpr hlt), Bool.and_false]
    · rename_i hyes
      rw [not_or, Nat.not_lt] at hyes
      refine Or.inr ⟨url, hurl, ?_, ?_⟩
      · simp only [Notice.posts, hurl, called, Option.any_some, hyes.2, decide_true,
          ne_eq, hyes.1, not_false_eq_true, Bool.and_self]
      · dsimp only at h
        rw [Notice.next, answers]
        split at h
        · rename_i hans
          cases h
          exact ⟨rfl, (if_pos hans).symm⟩
        · rename_i hans
          rw [if_neg hans]
          split at h
          · rename_i hlt
            cases h
            exact ⟨rfl, (if_pos hlt).symm⟩
          · rename_i hlt
            cases h
            exact ⟨rfl, (if_neg hlt).symm⟩

theorem Notice.next_cases (cfg : Settings) (n : Notice) (number : Nat) (http : Option Nat) :
    n.next cfg number http = none ∨
      n.next cfg number http = some (.attempt n (number + 1)) := by
  unfold Notice.next
  split
  · exact Or.inl rfl
  · split
    · exact Or.inr rfl
    · exact Or.inl rfl

theorem fireWebhook_duty {copies : List LetterFields} {aborts : Bool} {env : Env} {db db' : Db}
    {n : Notice} {number : Nat} {next : Option Nat}
    (h : fireWebhook cfg env db n number = (db', next)) :
    ∃ rows, db'.webhookLog = db.webhookLog ++ rows ∧
      DutyStep cfg copies aborts (some (.attempt n number)) (next.map (Duty.attempt n))
        rows [] := by
  rcases fireWebhook_cases h with ⟨hno, rfl, rfl⟩ | ⟨url, hurl, hyes, hlog, hnext⟩
  · exact ⟨[], (List.append_nil _).symm, .skip hno⟩
  · rw [hnext]
    exact ⟨_, hlog, .post hurl hyes⟩

theorem DutyStep.unlogged {copies : List LetterFields} {aborts : Bool} {before after : Option Duty}
    {log log' : List WebhookLog} (hlog : log' = log)
    (hd : DutyStep cfg copies aborts before after [] es) :
    ∃ rows, log' = log ++ rows ∧ DutyStep cfg copies aborts before after rows es :=
  ⟨[], by rw [hlog, List.append_nil], hd⟩

theorem DutyStep.of_event {copies : List LetterFields} {aborts : Bool} {e : Event}
    (ha : e.announced = none) (hd : e.dispatch = none) :
    DutyStep cfg copies aborts none none [] [e] := by
  refine .quiet (fun x hx => ?_)
  rw [List.mem_singleton.mp hx]
  exact ⟨ha, hd⟩

theorem log_of_fetchrow {db db' : Db} {u : Update Job} (h : db.fetchrow u = some db') :
    db'.webhookLog = db.webhookLog := by
  obtain ⟨-, rfl⟩ := fetchrow_eq_some.mp h
  rfl

theorem log_of_committed {db db' : Db} {job : LetterFields} {error : Option String} {n : Nat}
    {expected : Option WorkerId} {cut : Option TxnPoint}
    (h : deadLetterTxn db job error n expected cut = (db', .committed)) :
    db'.webhookLog = db.webhookLog := by
  obtain ⟨marked, hm, rfl⟩ := deadLetterTxn_committed h
  have hlog := log_of_fetchrow hm
  exact hlog

theorem workerNext_duty {w : WorkerId} {env : Env} {sh sh' : Shared} {pc pc' : WorkerPc}
    (h : workerNext cfg w env sh pc = some (sh', pc', es)) :
    ∃ rows, sh'.db.webhookLog = sh.db.webhookLog ++ rows ∧
      DutyStep cfg pc.copies false pc.duty pc'.duty rows es := by
  cases worker_await h with
  | settle hu hf =>
    refine DutyStep.unlogged (log_of_fetchrow hf) ?_
    cases hu with
    | success | failure => exact .commit (List.mem_singleton_self _) rfl rfl rfl
    | deferral => exact .of_event rfl rfl
  | lose hu =>
    refine DutyStep.unlogged rfl ?_
    cases hu <;> exact .of_event rfl rfl
  | bury _ htxn =>
    refine DutyStep.unlogged (log_of_committed htxn) ?_
    exact .commit (List.mem_singleton_self _) rfl rfl rfl
  | announce => exact DutyStep.unlogged rfl .announce
  | fire hfire | refire hfire => exact fireWebhook_duty hfire
  | claim hf => exact DutyStep.unlogged (log_of_fetchrow hf) (.of_event rfl rfl)
  | refuse | deliver | loseLast => exact DutyStep.unlogged rfl (.of_event rfl rfl)
  | _ => exact DutyStep.unlogged rfl (.quiet (fun e he => absurd he List.not_mem_nil))

theorem schedulerNext_duty {env : Env} {sh sh' : Shared} {pc pc' : SchedulerPc}
    (h : schedulerNext cfg env sh pc = some (sh', pc', es)) :
    ∃ rows, sh'.db.webhookLog = sh.db.webhookLog ++ rows ∧
      DutyStep cfg pc.copies false pc.duty pc'.duty rows es := by
  have hmap : ∀ {f : JobId → Event} {ids : List JobId},
      (∀ id, (f id).announced = none ∧ (f id).dispatch = none) →
      ∀ e ∈ ids.map f, e.announced = none ∧ e.dispatch = none := by
    intro f ids hf e he
    obtain ⟨id, -, rfl⟩ := List.mem_map.mp he
    exact hf id
  cases scheduler_await h with
  | promote _ hdb hpc =>
    refine DutyStep.unlogged (by rw [hdb]; rfl) ?_
    rcases hpc with ⟨-, rfl⟩ | rfl <;> exact .quiet (hmap (fun _ => ⟨rfl, rfl⟩))
  | recover _ hdb =>
    exact DutyStep.unlogged (by rw [hdb]; rfl) (.quiet (hmap (fun _ => ⟨rfl, rfl⟩)))
  | bury htxn =>
    exact DutyStep.unlogged (log_of_committed htxn) (.commit List.mem_cons_self rfl rfl rfl)
  | announce => exact DutyStep.unlogged rfl .announce
  | fire hfire | refire hfire => exact fireWebhook_duty hfire
  | requeue _ hpc =>
    refine DutyStep.unlogged rfl ?_
    rcases hpc with ⟨-, rfl⟩ | rfl <;> exact .quiet (fun e he => absurd he List.not_mem_nil)
  | _ => exact DutyStep.unlogged rfl (.quiet (fun e he => absurd he List.not_mem_nil))

/-! ### Over a step of the system -/

/-- **What a step does to the duty of the process that moves**, and to the log. -/
theorem duty_step (h : step cfg s a = some (t, es)) :
    ∃ rows, t.db.webhookLog = s.db.webhookLog ++ rows ∧
      DutyStep cfg (s.copies a.party) a.aborts (s.duty a.party) (t.duty a.party) rows es := by
  cases a with
  | worker w c =>
    rw [Action.party, State.duty, State.duty] at *
    cases worker_moves h with
    | run hn => exact workerNext_duty hn
    | raise hn =>
      obtain ⟨hsh, hpc⟩ := worker_raise hn
      refine DutyStep.unlogged (by rw [hsh]) ?_
      rcases hpc with hpc | hpc <;> rw [hpc] <;> exact .drop rfl
    | beat hdb _ hpc =>
      refine DutyStep.unlogged (by rw [hdb]; rfl) ?_
      rw [hpc]
      exact .keep
    | loseHeartbeat hsh hpc =>
      refine DutyStep.unlogged (by rw [hsh]) ?_
      rw [hpc]
      exact .keep
    | crash hsh hpc =>
      refine DutyStep.unlogged (by rw [hsh]) ?_
      rw [hpc]
      exact .drop rfl
  | scheduler k c =>
    rw [Action.party, State.duty, State.duty] at *
    cases scheduler_moves h with
    | run hn => exact schedulerNext_duty hn
    | raise hn =>
      obtain ⟨hsh, hpc⟩ := scheduler_raise hn
      refine DutyStep.unlogged (by rw [hsh]) ?_
      rw [hpc]
      exact .drop rfl
    | crash hsh hpc =>
      refine DutyStep.unlogged (by rw [hsh]) ?_
      rw [hpc]
      exact .drop rfl
  | createJob id body =>
    obtain ⟨jobs, -, he⟩ := Option.map_eq_some_iff.mp h
    cases he
    exact DutyStep.unlogged rfl (.of_event rfl rfl)
  | retryJob id =>
    simp only [step] at h
    split at h <;> cases h
    · exact DutyStep.unlogged rfl .keep
    · rename_i hf
      exact DutyStep.unlogged (log_of_fetchrow hf) (.of_event rfl rfl)
  | tick | redisFault =>
    cases h
    exact DutyStep.unlogged rfl .keep

theorem duty_frame (h : step cfg s a = some (t, es)) {p : Party} (hp : p ≠ a.party) :
    t.duty p = s.duty p := by
  cases p with
  | worker w =>
    have hw : ∀ c, a ≠ .worker w c := by
      rintro c rfl
      exact hp rfl
    rw [State.duty, worker_frame h hw]
    rfl
  | scheduler k =>
    have hk : ∀ c, a ≠ .scheduler k c := by
      rintro c rfl
      exact hp rfl
    rw [State.duty, scheduler_frame h hk]
    rfl
  | outside => rfl

/-! ### What notices and log rows are about -/

/-- The row of `webhook_log` is about the job's own callback URL. -/
structure WebhookLog.Sound (cfg : Settings) (s : State) (l : WebhookLog) : Prop where
  number : 1 ≤ l.attempt ∧ l.attempt ≤ cfg.webhookMaxAttempts
  url : l.callbackUrl ≠ ""
  job : ∃ r, s.row l.jobId = some r ∧ r.callbackUrl = some l.callbackUrl

/-- Duties, dispatches and log rows are about jobs there are. -/
structure Noted (cfg : Settings) (h : List Event) (s : State) : Prop where
  notice : ∀ p d, s.duty p = some d →
    ∃ r, s.row d.notice.jobId = some r ∧ r.callbackUrl = d.notice.callbackUrl
  number : ∀ p n number, s.duty p = some (.attempt n number) → 1 ≤ number
  dispatched : ∀ e ∈ h, ∀ x, e.dispatch = some x → ∃ r, s.row x.1 = some r
  log : ∀ l ∈ s.db.webhookLog, l.Sound cfg s

theorem callbackUrl_kept (h : step cfg s a = some (t, es)) {r : Job} (hr : s.row J = some r) :
    ∃ r', t.row J = some r' ∧ r'.callbackUrl = r.callbackUrl := by
  obtain ⟨r', hr', hf⟩ := row_fixed h hr
  exact ⟨r', hr', congrArg (fun x => x.1.callbackUrl) hf⟩

theorem row_of_copy (hr : Lts.Run (system cfg) ok h s) {p : Party} {copy : LetterFields}
    (hc : copy ∈ s.copies p) :
    ∃ r, s.row copy.id = some r ∧ r.callbackUrl = copy.callbackUrl := by
  cases p with
  | worker w =>
    obtain ⟨job, hj, rfl⟩ := List.mem_map.mp hc
    obtain ⟨⟨J, snapshot⟩, hst, hsnap⟩ := Option.bind_eq_some_iff.mp (Option.mem_toList.mp hj)
    cases hsnap
    obtain ⟨r, hrow, hf⟩ := (run_sound hr J).known.snapshot w job hst
    obtain rfl : J = job.id := by
      have hid : r.id = J := Table.key_of_find? hrow
      rw [← hid]
      exact congrArg (fun x => x.1.id) hf
    exact ⟨r, hrow, congrArg (fun x => x.1.callbackUrl) hf⟩
  | scheduler k =>
    obtain ⟨x, hx, rfl⟩ := List.mem_map.mp hc
    obtain ⟨r, hrow, hf⟩ := (run_sound hr x.id).known.recovered k x hx rfl
    exact ⟨r, hrow, congrArg (fun x => x.1.callbackUrl) hf⟩
  | outside => cases hc

/-- Where the notice of a duty comes from. -/
theorem DutyStep.origin {copies : List LetterFields} {aborts : Bool} {before after : Option Duty}
    {rows : List WebhookLog} (hd : DutyStep cfg copies aborts before after rows es) {d : Duty}
    (ha : after = some d) :
    (∃ d', before = some d' ∧ d'.notice = d.notice) ∨
      ∃ copy ∈ copies, copy.id = d.notice.jobId ∧ copy.callbackUrl = d.notice.callbackUrl := by
  cases hd with
  | commit hc hid hurl =>
    cases ha
    exact Or.inr ⟨_, hc, hid, hurl⟩
  | announce =>
    cases ha
    exact Or.inl ⟨_, rfl, rfl⟩
  | @post n number url http _ _ =>
    rcases n.next_cases cfg number http with hnext | hnext <;> cases hnext.symm.trans ha
    exact Or.inl ⟨_, rfl, rfl⟩
  | keep => exact Or.inl ⟨d, ha, rfl⟩
  | quiet | skip | drop => cases ha

theorem DutyStep.number {copies : List LetterFields} {aborts : Bool} {before : Option Duty}
    {rows : List WebhookLog} {n : Notice} {number : Nat}
    (hd : DutyStep cfg copies aborts before (some (.attempt n number)) rows es) :
    1 ≤ number ∨ before = some (.attempt n number) := by
  generalize ha : some (Duty.attempt n number) = after at hd
  cases hd with
  | announce =>
    cases ha
    exact Or.inl le_rfl
  | @post n number url http _ _ =>
    rcases n.next_cases cfg number http with hnext | hnext <;> cases hnext.symm.trans ha.symm
    exact Or.inl (Nat.le_add_left 1 _)
  | keep => exact Or.inr rfl
  | quiet | commit | skip | drop => cases ha

theorem DutyStep.dispatched {copies : List LetterFields} {aborts : Bool}
    {before after : Option Duty} {rows : List WebhookLog} {e : Event} {x : JobId × StatusChange}
    (hd : DutyStep cfg copies aborts before after rows es) (he : e ∈ es)
    (hx : e.dispatch = some x) :
    ∃ n, before = some (.announce n) ∧ x = (n.jobId, n.status) := by
  cases hd with
  | quiet hes =>
    rw [(hes e he).2] at hx
    cases hx
  | commit _ _ _ ha =>
    rw [List.mem_singleton.mp he] at hx
    rw [announced_of_dispatch _ (by rw [hx]; exact Option.some_ne_none x)] at ha
    cases ha
  | announce =>
    rw [List.mem_singleton.mp he] at hx
    cases hx
    exact ⟨_, rfl, rfl⟩
  | post | skip | keep | drop => cases he

/-- A row is logged for the attempt that was due. -/
theorem DutyStep.logs {copies : List LetterFields} {aborts : Bool} {before after : Option Duty}
    {rows : List WebhookLog} {l : WebhookLog}
    (hd : DutyStep cfg copies aborts before after rows es) (hl : l ∈ rows) :
    ∃ n url, before = some (.attempt n l.attempt) ∧ n.jobId = l.jobId ∧
      n.callbackUrl = some url ∧ url = l.callbackUrl ∧ n.posts cfg l.attempt = true := by
  cases hd with
  | post hurl hyes =>
    rw [List.mem_singleton.mp hl]
    exact ⟨_, _, rfl, rfl, hurl, rfl, hyes⟩
  | quiet | commit | announce | skip | keep | drop => cases hl

theorem noted_step (hr : Lts.Run (system cfg) ok h s) (hstep : step cfg s a = some (t, es))
    (hn : Noted cfg h s) : Noted cfg (es ++ h) t := by
  obtain ⟨rows, hlog, hd⟩ := duty_step hstep
  have hkept : ∀ {J : JobId} {url : Option String},
      (∃ r, s.row J = some r ∧ r.callbackUrl = url) →
      ∃ r, t.row J = some r ∧ r.callbackUrl = url := by
    rintro J url ⟨r, hrow, rfl⟩
    exact callbackUrl_kept hstep hrow
  refine ⟨fun p d hp => ?_, fun p n number hp => ?_, fun e he x hx => ?_, fun l hl => ?_⟩
  · by_cases hpa : p = a.party
    · subst hpa
      rcases hd.origin hp with ⟨d', hd', hnotice⟩ | ⟨copy, hc, hid, hurl⟩
      · rw [← hnotice]
        exact hkept (hn.notice _ _ hd')
      · rw [← hid, ← hurl]
        exact hkept (row_of_copy hr hc)
    · rw [duty_frame hstep hpa] at hp
      exact hkept (hn.notice p d hp)
  · by_cases hpa : p = a.party
    · subst hpa
      rw [hp] at hd
      rcases hd.number with hle | hb
      · exact hle
      · exact hn.number _ n number hb
    · rw [duty_frame hstep hpa] at hp
      exact hn.number p n number hp
  · have hrow : ∃ r, s.row x.1 = some r := by
      rcases List.mem_append.mp he with he | he
      · obtain ⟨n, hb, rfl⟩ := hd.dispatched he hx
        obtain ⟨r, hr', -⟩ := hn.notice _ _ hb
        exact ⟨r, hr'⟩
      · exact hn.dispatched e he x hx
    obtain ⟨r, hr'⟩ := hrow
    obtain ⟨r', hr'', -⟩ := callbackUrl_kept hstep hr'
    exact ⟨r', hr''⟩
  · rw [hlog] at hl
    rcases List.mem_append.mp hl with hl | hl
    · obtain ⟨hnumber, hurl, hjob⟩ := hn.log l hl
      exact ⟨hnumber, hurl, hkept hjob⟩
    · obtain ⟨n, url, hb, hid, hurl, rfl, hyes⟩ := hd.logs hl
      rw [Notice.posts, hurl, Bool.and_eq_true, decide_eq_true_eq] at hyes
      refine ⟨⟨hn.number _ _ _ hb, hyes.2⟩, of_decide_eq_true hyes.1, ?_⟩
      rw [← hid, ← hurl]
      exact hkept (hn.notice _ _ hb)

theorem duty_initial (hi : Initial s) (p : Party) : s.duty p = none := by
  cases p with
  | worker w =>
    rw [State.duty, hi.workers]
    rfl
  | scheduler k =>
    rw [State.duty, hi.schedulers]
    rfl
  | outside => rfl

/-! ### One link of the chain -/

/-- What a process has in hand for a link. -/
def held (mine : Duty → Bool) (d : Option Duty) : Nat := if d.any mine then 1 else 0

/-- The duties of one kind: how many there have been, and how many have been done. -/
structure Link where
  mine : Duty → Bool
  due : List Event → State → Nat
  done : List Event → State → Nat

/-- Of the duties of the link some are done, some are in the hands of a process,
and the others have been dropped. -/
def Link.Outstanding (l : Link) (h : List Event) (s : State) (dropped : Nat) : Prop :=
  ∃ P : Finset Party, (∀ p, p ∈ P ↔ (s.duty p).any l.mine = true) ∧
    l.due h s = l.done h s + P.card + dropped

theorem Link.Outstanding.step {l : Link} {k : List Event} {dropped x : Nat}
    (ho : l.Outstanding h s dropped) (hstep : step cfg s a = some (t, es))
    (hcount : l.due k t + l.done h s + held l.mine (s.duty a.party) =
      l.due h s + l.done k t + held l.mine (t.duty a.party) + x) :
    l.Outstanding k t (dropped + x) := by
  obtain ⟨P, hP, hdue⟩ := ho
  obtain ⟨P', hP', hcard⟩ := exists_update hP (p := a.party) (g := fun p => (t.duty p).any l.mine)
    (fun q hq => by rw [duty_frame hstep hq])
  rw [held, held] at hcount
  refine ⟨P', hP', ?_⟩
  omega

theorem Link.Outstanding.le {l : Link} {dropped : Nat} (ho : l.Outstanding h s dropped) :
    l.done h s ≤ l.due h s := by
  obtain ⟨P, -, hdue⟩ := ho
  omega

/-- Once no process has a duty in hand, what has not been dropped has been done. -/
theorem Link.Outstanding.settled {l : Link} {dropped : Nat} (ho : l.Outstanding h s dropped)
    (hrest : ∀ p, s.duty p = none) (hzero : dropped = 0) : l.done h s = l.due h s := by
  obtain ⟨P, hP, hdue⟩ := ho
  obtain rfl : P = ∅ := by
    refine Finset.eq_empty_of_forall_notMem (fun p hp => ?_)
    have hmine := (hP p).mp hp
    rw [hrest p] at hmine
    cases hmine
  rw [Finset.card_empty] at hdue
  omega

/-- **The chain, link by link**: a step that accounts for what it drops, and
drops nothing without an exception or a crash. -/
theorem Link.run {l : Link} {s₀ : State} (hi : Initial s₀) (hstart : l.due [] s₀ = l.done [] s₀)
    (hlink : ∀ h s a t es, Lts.Path (system cfg) ok s₀ h s → step cfg s a = some (t, es) →
      ∃ x, (a.aborts = false → x = 0) ∧
        l.due (es ++ h) t + l.done h s + held l.mine (s.duty a.party) =
          l.due h s + l.done (es ++ h) t + held l.mine (t.duty a.party) + x)
    (hp : Lts.Path (system cfg) ok s₀ h s) :
    ∃ dropped, ((∀ s a, ok s a = true → a.aborts = false) → dropped = 0) ∧
      l.Outstanding h s dropped := by
  refine hp.invariant (I := fun h s => ∃ dropped,
    ((∀ s a, ok s a = true → a.aborts = false) → dropped = 0) ∧ l.Outstanding h s dropped) ?_ ?_
  · refine ⟨0, fun _ => rfl, ∅, fun p => ?_, by rw [hstart]; rfl⟩
    rw [duty_initial hi]
    simp
  · rintro h s a t es hp ⟨dropped, hzero, ho⟩ hok hstep
    obtain ⟨x, hx, hcount⟩ := hlink h s a t es hp hstep
    refine ⟨dropped + x, fun hno => ?_, ho.step hstep hcount⟩
    rw [hzero hno, hx (hno s a hok)]

/-! ### Three kinds of links -/

/-- How many transitions of a kind there have been. -/
def commits (J : JobId) (status : StatusChange) (h : List Event) : Nat :=
  h.countP (fun e => decide (e.announced = some (J, status)))

/-- How many calls of `fire_webhook` for them. -/
def calls (J : JobId) (status : StatusChange) (h : List Event) : Nat :=
  h.countP (fun e => decide (e.dispatch = some (J, status)))

/-- A first attempt is made for the job. -/
def State.posts (cfg : Settings) (s : State) (J : JobId) : Bool :=
  (s.row J).any (fun r => called r.callbackUrl && decide (1 ≤ cfg.webhookMaxAttempts))

def Notice.about (n : Notice) (J : JobId) (status : StatusChange) : Bool :=
  decide (n.jobId = J ∧ n.status = status)

/-- From transitions to calls. -/
def callLink (J : JobId) (status : StatusChange) : Link where
  mine
    | .announce n => n.about J status
    | .attempt _ _ => false
  due h _ := commits J status h
  done h _ := calls J status h

/-- The attempt with a number is to be made. -/
def Duty.isAttempt (cfg : Settings) (J : JobId) (status : StatusChange) (number : Nat) : Duty → Bool
  | .announce _ => false
  | .attempt n m => n.about J status && decide (m = number) && n.posts cfg m

/-- From calls to first attempts. -/
def firstLink (cfg : Settings) (J : JobId) (status : StatusChange) : Link where
  mine := Duty.isAttempt cfg J status 1
  due h s := if s.posts cfg J then calls J status h else 0
  done _ s := logged J status 1 s.db.webhookLog

/-- From an attempt to the next. -/
def nextLink (cfg : Settings) (J : JobId) (status : StatusChange) (number : Nat) : Link where
  mine := Duty.isAttempt cfg J status (number + 1)
  due _ s := if number < cfg.webhookMaxAttempts then
    unanswered J status number s.db.webhookLog else 0
  done _ s := logged J status (number + 1) s.db.webhookLog

theorem calls_append (es h : List Event) :
    calls J status (es ++ h) = calls J status es + calls J status h := List.countP_append

theorem calls_eq_zero (hes : ∀ e ∈ es, e.dispatch = none) : calls J status es = 0 := by
  refine List.countP_eq_zero.mpr (fun e he => ?_)
  simp [hes e he]

theorem dispatch_of_announced {e : Event} {x : JobId × StatusChange} (ha : e.announced = some x) :
    e.dispatch = none := by
  by_contra hne
  rw [announced_of_dispatch e hne] at ha
  cases ha

/-- **From a transition to its call**, over a step. -/
theorem callLink_step (J : JobId) (status : StatusChange) {copies : List LetterFields}
    {aborts : Bool} {before after : Option Duty} {rows : List WebhookLog}
    (hd : DutyStep cfg copies aborts before after rows es) :
    ∃ x, (aborts = false → x = 0) ∧
      commits J status es + held (callLink J status).mine before =
        calls J status es + held (callLink J status).mine after + x := by
  cases hd with
  | quiet hes =>
    have hcommits : commits J status es = 0 := by
      refine List.countP_eq_zero.mpr (fun e he => ?_)
      simp [(hes e he).1]
    rw [hcommits, calls_eq_zero (fun e he => (hes e he).2)]
    exact ⟨0, fun _ => rfl, rfl⟩
  | @commit n e _ _ _ _ ha =>
    refine ⟨0, fun _ => rfl, ?_⟩
    simp [commits, calls, held, callLink, Notice.about, ha, dispatch_of_announced ha]
  | announce =>
    refine ⟨0, fun _ => rfl, ?_⟩
    simp [commits, calls, held, callLink, Notice.about, Event.announced, Event.dispatch]
  | @post n number url http _ _ =>
    refine ⟨0, fun _ => rfl, ?_⟩
    have hnone : held (callLink J status).mine (n.next cfg number http) = 0 := by
      rcases n.next_cases cfg number http with hnext | hnext <;> rw [hnext] <;> rfl
    rw [hnone]
    rfl
  | skip | keep => exact ⟨0, fun _ => rfl, by rw [commits, calls]; simp [held, callLink]⟩
  | drop ha =>
    refine ⟨held (callLink J status).mine before, fun hno => ?_, by simp [commits, calls, held]⟩
    rw [ha] at hno
    cases hno

/-- The row that an attempt leaves is one that was to be made. -/
theorem logged_post {n : Notice} {m number : Nat} {url : String} {http : Option Nat}
    (hyes : n.posts cfg m = true) :
    logged J status number [⟨n.jobId, url, n.status, http, m⟩] =
      held (Duty.isAttempt cfg J status number) (some (.attempt n m)) := by
  simp [logged, held, Duty.isAttempt, Notice.about, hyes, and_assoc]

theorem unanswered_post {n : Notice} {m number : Nat} {url : String} {http : Option Nat}
    (hyes : n.posts cfg m = true) :
    (if number < cfg.webhookMaxAttempts then
        unanswered J status number [⟨n.jobId, url, n.status, http, m⟩] else 0) =
      held (Duty.isAttempt cfg J status (number + 1)) (n.next cfg m http) := by
  rw [Notice.posts, Bool.and_eq_true] at hyes
  cases hans : answers http with
  | true => simp [unanswered, held, Notice.next, hans]
  | false =>
    rw [Notice.next, hans, if_neg Bool.false_ne_true]
    by_cases hm : m = number
    · subst hm
      split
      · rename_i hlt
        simp [unanswered, held, Duty.isAttempt, Notice.about, Notice.posts, hans, hyes.1,
          Nat.succ_le_of_lt hlt]
      · rfl
    · have hne : ¬ m + 1 = number + 1 := fun h => hm (Nat.succ.inj h)
      split <;> split <;> simp [unanswered, held, Duty.isAttempt, hm]

/-- **From one attempt to the next**, over a step. -/
theorem nextLink_step (J : JobId) (status : StatusChange) {copies : List LetterFields}
    {aborts : Bool} {before after : Option Duty} {rows : List WebhookLog} {number : Nat}
    (hnumber : number ≠ 0)
    (hd : DutyStep cfg copies aborts before after rows es) :
    ∃ x, (aborts = false → x = 0) ∧
      (if number < cfg.webhookMaxAttempts then unanswered J status number rows else 0) +
          held (Duty.isAttempt cfg J status (number + 1)) before =
        logged J status (number + 1) rows +
          held (Duty.isAttempt cfg J status (number + 1)) after + x := by
  cases hd with
  | quiet | commit => exact ⟨0, fun _ => rfl, by simp [unanswered, logged, held, Duty.isAttempt]⟩
  | announce =>
    exact ⟨0, fun _ => rfl, by simp [unanswered, logged, held, Duty.isAttempt, hnumber]⟩
  | post hurl hyes =>
    refine ⟨0, fun _ => rfl, ?_⟩
    rw [unanswered_post hyes, logged_post hyes]
    omega
  | skip hno =>
    exact ⟨0, fun _ => rfl, by simp [unanswered, logged, held, Duty.isAttempt, hno]⟩
  | keep => exact ⟨0, fun _ => rfl, by simp [unanswered, logged]⟩
  | drop ha =>
    refine ⟨held (Duty.isAttempt cfg J status (number + 1)) before, fun hno => ?_,
      by simp [unanswered, logged, held]⟩
    rw [ha] at hno
    cases hno

/-- **From a call to its first attempt**, over a step. -/
theorem firstLink_step (J : JobId) (status : StatusChange) {copies : List LetterFields}
    {aborts : Bool} {before after : Option Duty} {rows : List WebhookLog} {posts : Bool}
    (hnumber : ∀ n m, before = some (.attempt n m) → 1 ≤ m)
    (hposts : ∀ n, before = some (.announce n) → n.jobId = J → n.posts cfg 1 = posts)
    (hd : DutyStep cfg copies aborts before after rows es) :
    ∃ x, (aborts = false → x = 0) ∧
      (if posts then calls J status es else 0) +
          held (Duty.isAttempt cfg J status 1) before =
        logged J status 1 rows + held (Duty.isAttempt cfg J status 1) after + x := by
  cases hd with
  | quiet hes =>
    rw [calls_eq_zero (fun e he => (hes e he).2)]
    exact ⟨0, fun _ => rfl, by simp [logged]⟩
  | @commit n e _ _ _ _ ha =>
    rw [calls_eq_zero (fun x hx => by rw [List.mem_singleton.mp hx, dispatch_of_announced ha])]
    exact ⟨0, fun _ => rfl, by simp [logged, held, Duty.isAttempt]⟩
  | @announce n =>
    refine ⟨0, fun _ => rfl, ?_⟩
    by_cases hJ : n.jobId = J
    · subst hJ
      rw [← hposts n rfl rfl]
      cases hp : n.posts cfg 1 <;>
        simp [calls, logged, held, Duty.isAttempt, Notice.about, Event.dispatch, hp]
    · simp [calls, logged, held, Duty.isAttempt, Notice.about, Event.dispatch, hJ]
  | @post n m url http hurl hyes =>
    refine ⟨0, fun _ => rfl, ?_⟩
    have hnext : held (Duty.isAttempt cfg J status 1) (n.next cfg m http) = 0 := by
      have hm : m ≠ 0 := Nat.one_le_iff_ne_zero.mp (hnumber n m rfl)
      rcases n.next_cases cfg m http with hnext | hnext <;>
        simp [hnext, held, Duty.isAttempt, hm]
    rw [hnext, logged_post hyes]
    simp [calls]
  | skip hno =>
    exact ⟨0, fun _ => rfl, by simp [calls, logged, held, Duty.isAttempt, hno]⟩
  | keep => exact ⟨0, fun _ => rfl, by simp [calls, logged]⟩
  | drop ha =>
    refine ⟨held (Duty.isAttempt cfg J status 1) before, fun hno => ?_,
      by simp [calls, logged, held]⟩
    rw [ha] at hno
    cases hno

/-! ### The whole chain -/

theorem logged_append {number : Nat} (log rows : List WebhookLog) :
    logged J status number (log ++ rows) =
      logged J status number log + logged J status number rows := List.countP_append

theorem unanswered_append {number : Nat} (log rows : List WebhookLog) :
    unanswered J status number (log ++ rows) =
      unanswered J status number log + unanswered J status number rows := List.countP_append

section
variable {s₀ : State}

theorem path_noted (hi : Initial s₀) (hl : s₀.db.webhookLog = [])
    (hp : Lts.Path (system cfg) ok s₀ h s) : Noted cfg h s := by
  refine hp.invariant (I := Noted cfg) ⟨fun p d hd => ?_, fun p n m hd => ?_, fun e he => ?_,
    fun l hl' => ?_⟩ (fun h s a t es hp hn _ hstep => noted_step ⟨s₀, hi, hp⟩ hstep hn)
  · rw [duty_initial hi] at hd
    cases hd
  · rw [duty_initial hi] at hd
    cases hd
  · cases he
  · rw [hl] at hl'
    cases hl'

theorem posts_of_notice (hstep : step cfg s a = some (t, es)) (hn : Noted cfg h s) {p : Party}
    {n : Notice} (hd : s.duty p = some (.announce n)) : n.posts cfg 1 = t.posts cfg n.jobId := by
  obtain ⟨r, hr, hurl⟩ := hn.notice p _ hd
  obtain ⟨r', hr', hurl'⟩ := callbackUrl_kept hstep hr
  rw [State.posts, show t.row n.jobId = some r' from hr', Option.any_some, hurl', hurl]
  rfl

theorem posted_kept (J : JobId) (status : StatusChange)
    (hstep : step cfg s a = some (t, es)) (hn : Noted cfg h s) :
    (if t.posts cfg J then calls J status h else 0) =
      if s.posts cfg J then calls J status h else 0 := by
  cases hr : s.row J with
  | some r =>
    obtain ⟨r', hr', hurl⟩ := callbackUrl_kept hstep hr
    rw [State.posts, State.posts, hr, hr', Option.any_some, Option.any_some, hurl]
  | none =>
    have hzero : calls J status h = 0 := by
      refine List.countP_eq_zero.mpr (fun e he hx => ?_)
      obtain ⟨r, hr'⟩ := hn.dispatched e he _ (of_decide_eq_true hx)
      cases hr.symm.trans hr'
    rw [hzero, ite_self, ite_self]

theorem path_callLink (J : JobId) (status : StatusChange) (hi : Initial s₀)
    (hp : Lts.Path (system cfg) ok s₀ h s) :
    ∃ dropped, ((∀ s a, ok s a = true → a.aborts = false) → dropped = 0) ∧
      (callLink J status).Outstanding h s dropped := by
  refine Link.run hi rfl (fun h s a t es _ hstep => ?_) hp
  obtain ⟨rows, -, hd⟩ := duty_step hstep
  obtain ⟨x, hx, hcount⟩ := callLink_step J status hd
  refine ⟨x, hx, ?_⟩
  show commits J status (es ++ h) + _ + _ = _ + calls J status (es ++ h) + _ + x
  rw [commits, List.countP_append, calls_append]
  show commits J status es + commits J status h + calls J status h + _ =
    commits J status h + _ + _ + _
  omega

theorem path_firstLink (J : JobId) (status : StatusChange) (hi : Initial s₀)
    (hl : s₀.db.webhookLog = []) (hp : Lts.Path (system cfg) ok s₀ h s) :
    ∃ dropped, ((∀ s a, ok s a = true → a.aborts = false) → dropped = 0) ∧
      (firstLink cfg J status).Outstanding h s dropped := by
  have hstart : (firstLink cfg J status).due [] s₀ = (firstLink cfg J status).done [] s₀ := by
    simp [firstLink, hl, logged, calls]
  refine Link.run hi hstart (fun h s a t es hp hstep => ?_) hp
  have hn := path_noted hi hl hp
  obtain ⟨rows, hlog, hd⟩ := duty_step hstep
  obtain ⟨x, hx, hcount⟩ := firstLink_step J status (hn.number a.party)
    (fun n hb hJ => hJ ▸ posts_of_notice hstep hn hb) hd
  refine ⟨x, hx, ?_⟩
  have hkept := posted_kept J status hstep hn
  simp only [firstLink, hlog, logged_append, calls_append]
  rw [← hkept]
  by_cases hposts : t.posts cfg J = true
  · rw [if_pos hposts] at hcount ⊢
    rw [if_pos hposts]
    omega
  · rw [if_neg hposts] at hcount ⊢
    rw [if_neg hposts]
    omega

theorem path_nextLink (J : JobId) (status : StatusChange) (hi : Initial s₀)
    (hl : s₀.db.webhookLog = []) {number : Nat} (hnumber : number ≠ 0)
    (hp : Lts.Path (system cfg) ok s₀ h s) :
    ∃ dropped, ((∀ s a, ok s a = true → a.aborts = false) → dropped = 0) ∧
      (nextLink cfg J status number).Outstanding h s dropped := by
  have hstart : (nextLink cfg J status number).due [] s₀ =
      (nextLink cfg J status number).done [] s₀ := by
    simp [nextLink, hl, logged, unanswered]
  refine Link.run hi hstart (fun h s a t es hp hstep => ?_) hp
  obtain ⟨rows, hlog, hd⟩ := duty_step hstep
  obtain ⟨x, hx, hcount⟩ := nextLink_step J status hnumber hd
  refine ⟨x, hx, ?_⟩
  simp only [nextLink, hlog, logged_append, unanswered_append]
  by_cases hlt : number < cfg.webhookMaxAttempts
  · rw [if_pos hlt] at hcount
    rw [if_pos hlt, if_pos hlt]
    omega
  · rw [if_neg hlt] at hcount
    rw [if_neg hlt, if_neg hlt]
    omega

/-- **The audit trail.**  In every run from empty tables, each row of `webhook_log`
is about a job there is, goes to the job's own callback URL and has a number
within the limit.  A call of `fire_webhook` has a transition of its own that it
announces, a first attempt has a call of its own, and a further one an attempt
before it that was not answered, or with a 5xx.

Without exceptions and crashes nothing is missing once every process is done:
each transition has been announced, for a job with a callback URL each call has
its first attempt, and each attempt that was not answered has its next one,
up to the limit. -/
theorem audit_trail (hi : Initial s₀) (hl : s₀.db.webhookLog = [])
    (hp : Lts.Path (system cfg) ok s₀ h s) :
    (∀ l ∈ s.db.webhookLog, l.Sound cfg s) ∧
    (∀ J status, calls J status h ≤ commits J status h) ∧
    (∀ J status, logged J status 1 s.db.webhookLog ≤ calls J status h) ∧
    (∀ J status number, number ≠ 0 → logged J status (number + 1) s.db.webhookLog ≤
      unanswered J status number s.db.webhookLog) ∧
    ((∀ s a, ok s a = true → a.aborts = false) → (∀ p, s.duty p = none) →
      (∀ J status, calls J status h = commits J status h) ∧
      (∀ J status, s.posts cfg J = true →
        logged J status 1 s.db.webhookLog = calls J status h) ∧
      ∀ J status number, number ≠ 0 → number < cfg.webhookMaxAttempts →
        logged J status (number + 1) s.db.webhookLog =
          unanswered J status number s.db.webhookLog) := by
  refine ⟨(path_noted hi hl hp).log, fun J status => ?_, fun J status => ?_,
    fun J status number hnumber => ?_, fun hno hrest => ⟨fun J status => ?_,
    fun J status hposts => ?_, fun J status number hnumber hlt => ?_⟩⟩
  · obtain ⟨dropped, -, ho⟩ := path_callLink J status hi hp
    exact ho.le
  · obtain ⟨dropped, -, ho⟩ := path_firstLink J status hi hl hp
    refine ho.le.trans ?_
    show (if s.posts cfg J then calls J status h else 0) ≤ calls J status h
    split <;> omega
  · obtain ⟨dropped, -, ho⟩ := path_nextLink J status hi hl hnumber hp
    refine ho.le.trans ?_
    show (if number < cfg.webhookMaxAttempts then
      unanswered J status number s.db.webhookLog else 0) ≤ _
    split <;> omega
  · obtain ⟨dropped, hzero, ho⟩ := path_callLink J status hi hp
    exact ho.settled hrest (hzero hno)
  · obtain ⟨dropped, hzero, ho⟩ := path_firstLink J status hi hl hp
    exact (ho.settled hrest (hzero hno)).trans (if_pos hposts)
  · obtain ⟨dropped, hzero, ho⟩ := path_nextLink J status hi hl hnumber hp
    exact (ho.settled hrest (hzero hno)).trans (if_pos hlt)

end

/-- No exception and no crash. -/
def unbroken (_ : State) (a : Action) : Bool := !a.aborts

/-- Job `7` is sent, and its webhook answered with 503 and then with 200. -/
def secondAttempt : List Action :=
  .createJob 7 { plainJob with callbackUrl := some "http://localhost" } :: promotion 0 7 ++
    claim 1 ++ [work 1, work 1, work 1 { random := 1 / 2 }, work 1, work 1,
      work 1 { http := some 503 }, work 1 { http := some 200 }]

theorem duty_of_exec {as : List Action}
    (he : (system cfg).exec ok State.empty as = some (t, h))
    (hworkers : (as.filterMap Action.worker?).all
      (fun w => (t.workers w).pc.duty.isNone) = true)
    (hschedulers : (as.filterMap Action.scheduler?).all
      (fun k => (t.schedulers k).duty.isNone) = true) (p : Party) : t.duty p = none := by
  cases p with
  | worker w =>
    by_cases hw : w ∈ as.filterMap Action.worker?
    · exact Option.isNone_iff_eq_none.mp (List.all_eq_true.mp hworkers w hw)
    · rw [State.duty, worker_of_exec he hw]
      rfl
  | scheduler k =>
    by_cases hk : k ∈ as.filterMap Action.scheduler?
    · exact Option.isNone_iff_eq_none.mp (List.all_eq_true.mp hschedulers k hk)
    · rw [State.duty, scheduler_of_exec he hk]
      rfl
  | outside => rfl

/-- The run ends with every process done, and nothing is missing from the log. -/
theorem audit_trail_second_attempt : ∃ h s,
    Lts.Path (system {}) unbroken State.empty h s ∧ (∀ p, s.duty p = none) ∧
    commits 7 .sent h = 1 ∧ calls 7 .sent h = 1 ∧ logged 7 .sent 1 s.db.webhookLog = 1 ∧
    logged 7 .sent 2 s.db.webhookLog = 1 := by
  have hrun : ((system {}).exec unbroken State.empty secondAttempt).map
      (fun p : State × List Event => (commits 7 .sent p.2, unanswered 7 .sent 1 p.1.db.webhookLog,
        p.1.posts {} 7,
        (secondAttempt.filterMap Action.worker?).all (fun w => (p.1.workers w).pc.duty.isNone),
        (secondAttempt.filterMap Action.scheduler?).all
          (fun k => (p.1.schedulers k).duty.isNone))) =
      some (1, 1, true, true, true) := by decide +kernel
  obtain ⟨⟨s, h⟩, he, hf⟩ := Option.map_eq_some_iff.mp hrun
  obtain ⟨hcommits, hf⟩ := Prod.mk.inj hf
  obtain ⟨hunanswered, hf⟩ := Prod.mk.inj hf
  obtain ⟨hposts, hf⟩ := Prod.mk.inj hf
  obtain ⟨hworkers, hschedulers⟩ := Prod.mk.inj hf
  have hrest := duty_of_exec he hworkers hschedulers
  have hp := Lts.path_of_exec _ he
  obtain ⟨-, -, -, -, hdone⟩ := audit_trail initial_empty rfl hp
  obtain ⟨hcalls, hfirst, hnext⟩ := hdone (fun _ a ha => by simpa [unbroken] using ha) hrest
  have hone := (hcalls 7 .sent).trans hcommits
  exact ⟨h, s, hp, hrest, hcommits, hone, (hfirst 7 .sent hposts).trans hone,
    (hnext 7 .sent 1 one_ne_zero (by decide)).trans hunanswered⟩

end NotifyQueue
