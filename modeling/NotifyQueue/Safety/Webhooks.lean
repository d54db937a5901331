import NotifyQueue.Job.Copies
import NotifyQueue.Lib.Handoff

/-!
# Webhooks and the transitions they announce

A handler commits its outcome write, releases the lock and calls
`fire_webhook`, in this order and from one place to the next; so does
`dead_letter`, for both of its callers.  In between the process owes a webhook
(`State.owes`), and it owes the one of the transition it has just committed.

`attributed` is the system with each event attributed to the process that
causes it.  The histories of its runs are `Handed`: the event before a dispatch,
among those of the same process, is the transition it announces.  The rest is
counting, with the statuses that can follow `sent` for the last bound.
-/

namespace NotifyQueue

open KeyedTable Handoff

/-- Who causes an event. -/
inductive Party
  | worker (w : WorkerId)
  | scheduler (k : SchedulerId)
  | outside
deriving DecidableEq

def Action.party : Action → Party
  | .worker w _ => .worker w
  | .scheduler k _ => .scheduler k
  | _ => .outside

/-- The system, with each event attributed to the process that causes it. -/
def attributed (cfg : Settings) : Lts.System State Action (Party × Event) :=
  (system cfg).observe (fun _ a _ es => es.map (fun e => (a.party, e)))

/-- The transition an event commits, as a webhook announces it. -/
def Event.announced : Event → Option (JobId × StatusChange)
  | .sent _ id => some (id, .sent)
  | .retried _ id => some (id, .failed)
  | .deadLettered _ _ id => some (id, .deadLettered)
  | _ => none

/-- The announcement of a `fire_webhook` call. -/
def Event.dispatch : Event → Option (JobId × StatusChange)
  | .dispatched id status => some (id, status)
  | _ => none

/-- The status a transition leaves. -/
def StatusChange.result : StatusChange → JobStatus
  | .sent => .sent
  | .failed => .pending
  | .deadLettered => .deadLettered

def WorkerPc.owes : WorkerPc → Option (JobId × StatusChange)
  | .releasing _ (some n) => some (n.jobId, n.status)
  | _ => none

def SchedulerPc.owes : SchedulerPc → Option (JobId × StatusChange)
  | .releasing n _ => some (n.jobId, n.status)
  | _ => none

/-- The webhook a process is about to send. -/
def State.owes (s : State) : Party → Option (JobId × StatusChange)
  | .worker w => (s.workers w).pc.owes
  | .scheduler k => (s.schedulers k).owes
  | .outside => none

variable {cfg : Settings} {s t : State} {a : Action} {es : List Event}
  {h : List (Party × Event)} {J : JobId}

theorem announced_of_dispatch (e : Event) (he : e.dispatch ≠ none) : e.announced = none := by
  cases e <;> first | rfl | exact absurd rfl he

/-! ### What a process owes, over one `await` -/

/-- How what a process owes changes with the events of its step. -/
inductive Owing (before after : Option (JobId × StatusChange)) (es : List Event) : Prop
  | dispatched {id : JobId} {status : StatusChange} : before = some (id, status) →
      es = [.dispatched id status] → after = none → Owing before after es
  | committed {e : Event} : es = [e] → e.dispatch = none → after = e.announced →
      Owing before after es
  | nothing : (∀ e ∈ es, e.dispatch = none) → after = none → Owing before after es
  | kept : es = [] → after = before → Owing before after es

theorem Owing.silent {before : Option (JobId × StatusChange)} : Owing before none [] :=
  .nothing (fun _ he => absurd he List.not_mem_nil) rfl

theorem workerNext_owing {w : WorkerId} {env : Env} {sh sh' : Shared} {pc pc' : WorkerPc}
    (h : workerNext cfg w env sh pc = some (sh', pc', es)) : Owing pc.owes pc'.owes es := by
  cases worker_await h with
  | settle hu => cases hu <;> exact .committed rfl rfl rfl
  | refuse | claim | deliver | lose | bury | loseLast => exact .committed rfl rfl rfl
  | announce => exact .dispatched rfl rfl rfl
  | _ => exact .silent

theorem schedulerNext_owing {env : Env} {sh sh' : Shared} {pc pc' : SchedulerPc}
    (h : schedulerNext cfg env sh pc = some (sh', pc', es)) : Owing pc.owes pc'.owes es := by
  have hmap : ∀ {f : JobId → Event}, (∀ id, (f id).dispatch = none) → ∀ {ids : List JobId},
      ∀ e ∈ ids.map f, e.dispatch = none := by
    intro f hf ids e he
    obtain ⟨id, -, rfl⟩ := List.mem_map.mp he
    exact hf id
  cases scheduler_await h with
  | promote _ _ hpc =>
    refine .nothing (hmap (fun _ => rfl)) ?_
    rcases hpc with ⟨-, rfl⟩ | rfl <;> rfl
  | recover => exact .nothing (hmap (fun _ => rfl)) rfl
  | bury => exact .committed rfl rfl rfl
  | announce => exact .dispatched rfl rfl rfl
  | requeue _ hpc => rcases hpc with ⟨-, rfl⟩ | rfl <;> exact .silent
  | _ => exact .silent

/-! ### Over a step of the system -/

theorem owing_step (h : step cfg s a = some (t, es)) :
    Owing (s.owes a.party) (t.owes a.party) es := by
  cases a with
  | worker w c =>
    rw [Action.party, State.owes, State.owes]
    cases worker_moves h with
    | run hn => exact workerNext_owing hn
    | raise hn =>
      rcases (worker_raise hn).2 with hpc | hpc <;> rw [hpc] <;> exact .silent
    | beat _ _ hpc | loseHeartbeat _ hpc => exact .kept rfl (by rw [hpc])
    | crash _ hpc =>
      rw [hpc]
      exact .silent
  | scheduler k c =>
    rw [Action.party, State.owes, State.owes]
    cases scheduler_moves h with
    | run hn => exact schedulerNext_owing hn
    | raise hn =>
      rw [(scheduler_raise hn).2]
      exact .silent
    | crash _ hpc =>
      rw [hpc]
      exact .silent
  | createJob id body =>
    obtain ⟨jobs, -, he⟩ := Option.map_eq_some_iff.mp h
    cases he
    exact .committed rfl rfl rfl
  | retryJob id =>
    simp only [step] at h
    split at h <;> cases h
    · exact .silent
    · exact .committed rfl rfl rfl
  | tick | redisFault =>
    cases h
    exact .silent

theorem owes_frame (h : step cfg s a = some (t, es)) {p : Party} (hp : p ≠ a.party) :
    t.owes p = s.owes p := by
  cases p with
  | worker w =>
    have hw : ∀ c, a ≠ .worker w c := by
      rintro c rfl
      exact hp rfl
    rw [State.owes, worker_frame h hw]
    rfl
  | scheduler k =>
    have hk : ∀ c, a ≠ .scheduler k c := by
      rintro c rfl
      exact hp rfl
    rw [State.owes, scheduler_frame h hk]
    rfl
  | outside => rfl

/-! ### The invariant -/

/-- Every dispatch has followed its transition, and what a process owes is the
transition it has committed last. -/
structure Announcing (h : List (Party × Event)) (s : State) : Prop where
  handed : Handed Event.announced Event.dispatch h
  owes : ∀ p x, s.owes p = some x → (latest p h).bind Event.announced = some x

theorem announcing_step (hstep : step cfg s a = some (t, es)) (hi : Announcing h s) :
    Announcing (es.map (fun e => (a.party, e)) ++ h) t := by
  have hothers : ∀ p, p ≠ a.party → ∀ x, t.owes p = some x →
      (latest p (es.map (fun e => (a.party, e)) ++ h)).bind Event.announced = some x := by
    intro p hp x hx
    rw [latest_append_other (Ne.symm hp)]
    exact hi.owes p x (by rwa [owes_frame hstep hp] at hx)
  have howes : (∀ x, t.owes a.party = some x →
      (latest a.party (es.map (fun e => (a.party, e)) ++ h)).bind Event.announced = some x) →
      ∀ p x, t.owes p = some x →
        (latest p (es.map (fun e => (a.party, e)) ++ h)).bind Event.announced = some x := by
    intro hself p x hx
    by_cases hp : p = a.party
    · subst hp
      exact hself x hx
    · exact hothers p hp x hx
  cases owing_step hstep with
  | @dispatched id status hb he ha =>
    subst he
    refine ⟨⟨fun x hx => ?_, hi.handed⟩, howes (fun x hx => ?_)⟩
    · cases hx
      exact hi.owes a.party _ hb
    · cases ha.symm.trans hx
  | @committed e he hd ha =>
    subst he
    refine ⟨handed_append (by simpa using hd) hi.handed, howes (fun x hx => ?_)⟩
    rw [List.map_singleton, List.singleton_append, latest_self, Option.bind_some, ← ha, hx]
  | nothing hd ha =>
    refine ⟨handed_append hd hi.handed, howes (fun x hx => ?_)⟩
    cases ha.symm.trans hx
  | kept he ha =>
    subst he
    refine ⟨hi.handed, howes (fun x hx => ?_)⟩
    rw [ha] at hx
    exact hi.owes a.party x hx

theorem run_announcing {ok : State → Action → Bool} (hr : Lts.Run (attributed cfg) ok h s) :
    Announcing h s := by
  refine hr.invariant (I := Announcing) (fun s hi => ⟨trivial, fun p x hx => ?_⟩)
    (fun _ _ _ _ _ _ hi _ hstep => ?_)
  · cases p with
    | worker w =>
      rw [State.owes, hi.workers] at hx
      cases hx
    | scheduler k =>
      rw [State.owes, hi.schedulers] at hx
      cases hx
    | outside => cases hx
  · obtain ⟨es, hs, rfl⟩ := Lts.step_of_observe hstep
    exact announcing_step hs hi

/-! ### Transitions -/

/-- **An announced event is a committed transition of the row.** -/
theorem transition_of_announced {e : Event} {status : StatusChange}
    (hstep : step cfg s a = some (t, es)) (he : e ∈ es) (hn : e.announced = some (J, status)) :
    ∃ r r', s.row J = some r ∧ t.row J = some r' ∧ r'.status = status.result ∧
      (status ≠ .deadLettered → r.status = .claimed) := by
  obtain ⟨before, after, x, ls, hb, ha, hx, -, hE⟩ := step_effect hstep J
  have hjob : e.job? = some J := by
    cases e <;> cases hn <;> rfl
  have hmem : e ∈ x := hx ▸ mem_jobEvents.mpr ⟨he, hjob⟩
  cases hE with
  | stay | beat => cases hmem
  | send _ _ hc | retry _ _ _ hc =>
    cases List.mem_singleton.mp hmem
    cases hn
    exact ⟨_, _, hb, ha, rfl, fun _ => hc⟩
  | giveUp | bury =>
    cases List.mem_singleton.mp hmem
    cases hn
    exact ⟨_, _, hb, ha, rfl, fun h => absurd rfl h⟩
  | _ =>
    cases List.mem_singleton.mp hmem
    cases hn

/-! ### Counts -/

/-- How many transitions of a kind a history has. -/
def transitions (J : JobId) (status : StatusChange) (h : List (Party × Event)) : Nat :=
  h.countP (fun x => decide (x.2.announced = some (J, status)))

/-- How many webhooks of a kind were dispatched. -/
def dispatches (J : JobId) (status : StatusChange) (h : List (Party × Event)) : Nat :=
  h.countP (fun x => decide (x.2.dispatch = some (J, status)))

/-- How often `J` was replayed. -/
def replays (J : JobId) (h : List (Party × Event)) : Nat :=
  h.countP (fun x => decide (x.2 = .replayed J))

theorem countP_jobEvents {p : Event → Bool} (hp : ∀ e, p e = true → e.job? = some J)
    (es : List Event) : (jobEvents J es).countP p = es.countP p := by
  rw [jobEvents, List.countP_filter]
  refine List.countP_congr (fun e _ => ?_)
  rw [Bool.and_eq_true, decide_eq_true_eq]
  exact and_iff_left_of_imp (hp e)

theorem transitions_append (J : JobId) (status : StatusChange) (p : Party) (es : List Event)
    (h : List (Party × Event)) :
    transitions J status (es.map (fun e => (p, e)) ++ h) =
      (jobEvents J es).countP (fun e => decide (e.announced = some (J, status))) +
        transitions J status h := by
  rw [transitions, List.countP_append, List.countP_map, countP_jobEvents]
  · rfl
  · intro e he
    cases e <;> cases of_decide_eq_true he <;> rfl

theorem replays_append (J : JobId) (p : Party) (es : List Event) (h : List (Party × Event)) :
    replays J (es.map (fun e => (p, e)) ++ h) =
      (jobEvents J es).countP (fun e => decide (e = .replayed J)) + replays J h := by
  rw [replays, List.countP_append, List.countP_map, countP_jobEvents]
  · rfl
  · intro e he
    rw [of_decide_eq_true he]
    rfl

/-- Whether a job is done for, until it is replayed. -/
def Job.over (r : Job) : Bool := decide (r.status = .sent) || decide (r.status = .deadLettered)

/-- Each time `J` was sent it was replayed later, or it is over. -/
def SentOnce (J : JobId) (h : List (Party × Event)) (s : State) : Prop :=
  transitions J .sent h ≤ replays J h + (if (s.row J).any Job.over then 1 else 0)

/-- **What can follow `sent`**: only the status-unguarded dead-letter update,
and a replay from there. -/
theorem sentOnce_step (hstep : step cfg s a = some (t, es)) (hi : SentOnce J h s) :
    SentOnce J (es.map (fun e => (a.party, e)) ++ h) t := by
  obtain ⟨before, after, x, ls, hb, ha, hx, -, hE⟩ := step_effect hstep J
  rw [SentOnce, hb] at hi
  rw [SentOnce, transitions_append, replays_append, hx, ha]
  cases hE with
  | stay | deliver => simpa [Event.announced] using hi
  | create => simpa [Event.announced, Job.over, insertJob] using hi
  | giveUp | bury =>
    have hle : transitions J .sent h ≤ replays J h + 1 := by
      refine hi.trans (Nat.add_le_add_left ?_ _)
      split <;> omega
    simpa [Event.announced, Job.over, markDeadLettered] using hle
  | promote _ _ hp => simpa [Event.announced, Job.over, promoteIds, hp] using hi
  | claim _ hq => simpa [Event.announced, Job.over, claimQueuedJob, hq] using hi
  | beat hc => simpa [Event.announced, Job.over, updateHeartbeat, hc] using hi
  | send _ _ hc =>
    rw [Nat.add_comm]
    simpa [Event.announced, Job.over, markSent, hc] using hi
  | retry _ _ _ hc | defer _ _ hc | reclaim _ _ hc =>
    simpa [Event.announced, Job.over, scheduleRetry, deferToNextWindow, recoverStaleClaimed, hc]
      using hi
  | replay hd =>
    simpa [Event.announced, Job.over, retryDeadLetteredJob, hd, Nat.add_comm] using hi

theorem run_sentOnce {ok : State → Action → Bool} (hr : Lts.Run (attributed cfg) ok h s) :
    SentOnce J h s := by
  refine hr.invariant (I := SentOnce J) (fun s _ => Nat.zero_le _)
    (fun _ _ _ _ _ _ hi _ hstep => ?_)
  obtain ⟨es, hs, rfl⟩ := Lts.step_of_observe hstep
  exact sentOnce_step hs hi

/-! ### Webhooks follow transitions -/

/-- **Webhooks follow transitions.**  Each dispatch has an earlier event of the
same process of its own that it announces, a committed transition of the row;
so the dispatches of a kind never outnumber the transitions.  A dispatch never
follows an outcome write that missed, or a deferral.  A job's `sent` webhooks are
at most one more than its replays. -/
theorem webhooks_follow_transitions {ok : State → Action → Bool}
    (hr : Lts.Run (attributed cfg) ok h s) :
    (∃ src : Nat → Nat, ∀ i p J status, h[i]? = some (p, .dispatched J status) →
      i < src i ∧ (∃ e, h[src i]? = some (p, e) ∧ e.announced = some (J, status)) ∧
      ∀ j q J' status', h[j]? = some (q, .dispatched J' status') → src j = src i → j = i) ∧
    (∀ a t es e J status, step cfg s a = some (t, es) → e ∈ es →
      e.announced = some (J, status) → ∃ r r', s.row J = some r ∧ t.row J = some r' ∧
        r'.status = status.result ∧ (status ≠ .deadLettered → r.status = .claimed)) ∧
    (∀ J status, dispatches J status h ≤ transitions J status h) ∧
    (∀ i p J status w id, h[i]? = some (p, .dispatched J status) →
      latest p (h.drop (i + 1)) ≠ some (.lost w id) ∧
      latest p (h.drop (i + 1)) ≠ some (.deferred w id)) ∧
    (∀ J, dispatches J .sent h ≤ 1 + replays J h) := by
  have hh := (run_announcing hr).handed
  have hcount : ∀ J status, dispatches J status h ≤ transitions J status h :=
    fun J status => hh.countP_le announced_of_dispatch (J, status)
  refine ⟨?_, fun a t es e J status => transition_of_announced, hcount, ?_, fun J => ?_⟩
  · obtain ⟨src, hsrc⟩ := hh.exists_source
    refine ⟨src, fun i p J status hi => ?_⟩
    obtain ⟨hlt, he, hinj⟩ := hsrc i p _ (J, status) hi rfl
    exact ⟨hlt, he, fun j q J' status' hj => hinj j q _ (J', status') hj rfl⟩
  · intro i p J status w id hi
    obtain ⟨e, he, ha⟩ := hh.latest_of_closes hi (k := (J, status)) rfl
    rw [he]
    refine ⟨fun hl => ?_, fun hl => ?_⟩ <;> cases hl <;> cases ha
  · have hsent : transitions J .sent h ≤ replays J h + 1 := by
      refine (run_sentOnce (J := J) hr).trans (Nat.add_le_add_left ?_ _)
      split <;> omega
    have := hcount J .sent
    omega

/-- Worker `1` has sent job `7` and its webhook is dispatched. -/
theorem webhooks_follow_transitions_sent : ∃ h s, Lts.Run (attributed {}) always h s ∧
    dispatches 7 .sent h = 1 ∧ dispatches 7 .sent h ≤ transitions 7 .sent h ∧
    dispatches 7 .sent h ≤ 1 + replays 7 h := by
  obtain ⟨s, h, hr, hf⟩ := Lts.run_of_replay (attributed {}) always
    (.createJob 7 { plainJob with callbackUrl := some "http://localhost" } :: promotion 0 7 ++
      claim 1 ++ [work 1, work 1, work 1 { random := 1 / 2 }, work 1, work 1])
    (fun p => dispatches 7 .sent p.2) 1 initial_empty (by decide +kernel)
  obtain ⟨-, -, hle, -, hsent⟩ := webhooks_follow_transitions hr
  exact ⟨h, s, hr, hf, hle 7 .sent, hsent 7⟩

end NotifyQueue
