import NotifyQueue.Model.Retry
import NotifyQueue.Safety.Letters

/-!
# Replays and their requests

Any number of `POST /jobs/{id}/retry` may be in progress for a job, next to
everything else.  The row decides: each replay of a job is that of one request
(`run_replays`), and between two of them the job has been dead-lettered again
(`run_replays_between`).  The endpoint looks at the row a second time only to
choose its error, and by then the row may have changed; still nobody is told
that a job does not exist that did when he asked, nor refused a dead-lettered
job that nobody else has replayed meanwhile.
-/

namespace NotifyQueue

open KeyedTable

/-- The update of the request has matched. -/
def RetryPc.replayed : RetryPc → Bool
  | .responding | .requeued | .lost => true
  | .updating | .checking | .notFound | .notDeadLettered | .failed => false

/-- The request has replayed the job `J`. -/
def RetryRequest.replays (J : JobId) (rq : RetryRequest) : Bool :=
  decide (rq.job = J) && rq.pc.replayed

/-- What a request does over an `await` that leaves the tables alone. -/
inductive RetryTurn (s : State) (J : JobId) : RetryPc → RetryPc → Prop
  | miss : (∀ r, s.row J = some r → r.status ≠ .deadLettered) → RetryTurn s J .updating .checking
  | found {r : Job} : s.row J = some r → RetryTurn s J .checking .notDeadLettered
  | missing : s.row J = none → RetryTurn s J .checking .notFound
  | answer : RetryTurn s J .responding .requeued
  | fail {pc : RetryPc} : pc = .updating ∨ pc = .checking → RetryTurn s J pc .failed
  | lose : RetryTurn s J .responding .lost

/-- What a step does to a call of `retryJob`. -/
inductive ClickTurn (p : Panel) (click : Click) : Click → Prop
  | lose {k : Nat} : click.attempts[k]? = some .sending →
      ClickTurn p click (click.setAttempt k .lost)
  | resend : ClickTurn p click { click with attempts := click.attempts ++ [.sending] }
  | throw : ClickTurn p click { click with result := some .thrown }
  | respond {ok : Bool} : p.answer? click = some ok →
      ClickTurn p click { click with result := some (.returned ok) }

/-- What a step of the panel is. -/
inductive PanelMove (cfg : Settings) (p : Panel) : PanelAction → Panel → List Event → Prop
  | core {b : Action} {s : State} {es : List Event} : b.isRetry = false →
      step cfg p.core b = some (s, es) → PanelMove cfg p (.core b) { p with core := s } es
  | request {id : JobId} : PanelMove cfg p (.request id) (p.receive id) []
  | replay {n : Nat} {J : JobId} {s : State} : p.requests[n]? = some ⟨J, .updating⟩ →
      step cfg p.core (.retryJob J) = some (s, [.replayed J]) →
      PanelMove cfg p (.next n) ({ p with core := s }.setRequest n ⟨J, .responding⟩) [.replayed J]
  | turn {a : PanelAction} {n : Nat} {J : JobId} {pc pc' : RetryPc} :
      p.requests[n]? = some ⟨J, pc⟩ → RetryTurn p.core J pc pc' →
      PanelMove cfg p a (p.setRequest n ⟨J, pc'⟩) []
  | call {a : PanelAction} (ids : List JobId) : PanelMove cfg p a (p.call ids) []
  | arrive {c : ClickId} {k : Nat} {click : Click} : p.clicks[c]? = some click →
      click.attempts[k]? = some .sending →
      PanelMove cfg p (.arrive c k) ((p.receive click.job).setClick c
        (click.setAttempt k (.arrived p.requests.length))) []
  | click {a : PanelAction} {c : ClickId} {click click' : Click} : p.clicks[c]? = some click →
      ClickTurn p click click' → PanelMove cfg p a (p.setClick c click') []

variable {cfg : Settings} {s t : State} {p p' : Panel} {a : PanelAction} {es h k : List Event}
  {J : JobId} {n : Nat} {rq : RetryRequest} {pc pc' : RetryPc}

/-! ### Steps of the panel -/

/-- The update of the endpoint is the step `retryJob` of the system. -/
theorem retry_cases (cfg : Settings) {e : List Event}
    (h : retryNext s J pc = some (t, pc', e)) :
    (pc = .updating ∧ pc' = .responding ∧ e = [.replayed J] ∧
      step cfg s (.retryJob J) = some (t, [.replayed J])) ∨
    (t = s ∧ e = [] ∧ RetryTurn s J pc pc') := by
  cases pc with
  | updating =>
    simp only [retryNext] at h
    split at h
    · rename_i db hf
      cases h
      exact Or.inl ⟨rfl, rfl, rfl, by simp only [step, hf]⟩
    · rename_i hf
      cases h
      refine Or.inr ⟨rfl, rfl, .miss (fun r hr hd => ?_)⟩
      have hno := not_applies_of_fetchrow hf hr
      simp [retryDeadLetteredJob, hd, show r.id = J from Table.key_of_find? hr] at hno
  | responding =>
    cases h
    exact Or.inr ⟨rfl, rfl, .answer⟩
  | checking =>
    simp only [retryNext, Option.some.injEq, Prod.mk.injEq] at h
    obtain ⟨rfl, rfl, rfl⟩ := h
    refine Or.inr ⟨rfl, rfl, ?_⟩
    cases hr : s.row J with
    | none => exact .missing hr
    | some r => exact .found hr
  | requeued | notFound | notDeadLettered | failed | lost => cases h

theorem turn_of_retryAbort (h : retryAbort pc = some pc') : RetryTurn s J pc pc' := by
  cases pc with
  | updating =>
    cases h
    exact .fail (Or.inl rfl)
  | checking =>
    cases h
    exact .fail (Or.inr rfl)
  | responding =>
    cases h
    exact .lose
  | requeued | notFound | notDeadLettered | failed | lost => cases h

theorem turn_fetchFailed (p : Panel) (click : Click) : ClickTurn p click click.fetchFailed := by
  rw [Click.fetchFailed]
  split
  · exact .throw
  · exact .resend

theorem panel_step (h : panelStep cfg p a = some (p', es)) : PanelMove cfg p a p' es := by
  cases a with
  | core b =>
    simp only [panelStep] at h
    split at h
    · cases h
    · rename_i hb
      obtain ⟨⟨s, es'⟩, hs, he⟩ := Option.map_eq_some_iff.mp h
      cases he
      exact .core (Bool.eq_false_iff.mpr hb) hs
  | request id =>
    cases h
    exact .request
  | next n =>
    obtain ⟨⟨J, pc⟩, hn, h⟩ := Option.bind_eq_some_iff.mp h
    obtain ⟨⟨s, pc', e⟩, hs, he⟩ := Option.map_eq_some_iff.mp h
    cases he
    rcases retry_cases cfg hs with ⟨rfl, rfl, rfl, hstep⟩ | ⟨rfl, rfl, hturn⟩
    · exact .replay hn hstep
    · exact .turn hn hturn
  | abort n =>
    obtain ⟨⟨J, pc⟩, hn, h⟩ := Option.bind_eq_some_iff.mp h
    obtain ⟨pc', ha, he⟩ := Option.map_eq_some_iff.mp h
    cases he
    exact .turn hn (turn_of_retryAbort ha)
  | click id =>
    cases h
    exact .call _
  | clickAll ids =>
    simp only [panelStep] at h
    split at h <;> cases h
    exact .call ids
  | arrive c k =>
    obtain ⟨click, hc, h⟩ := Option.bind_eq_some_iff.mp h
    split at h
    · rename_i hk
      cases h
      exact .arrive hc hk
    · cases h
  | lose c k =>
    obtain ⟨click, hc, h⟩ := Option.bind_eq_some_iff.mp h
    split at h
    · rename_i hk
      cases h
      exact .click hc (.lose hk)
    · cases h
  | fetchFails c =>
    obtain ⟨click, hc, h⟩ := Option.bind_eq_some_iff.mp h
    split at h <;> cases h
    exact .click hc (turn_fetchFailed p click)
  | respond c =>
    obtain ⟨click, hc, h⟩ := Option.bind_eq_some_iff.mp h
    split at h
    · cases h
    · obtain ⟨ok, hok, he⟩ := Option.map_eq_some_iff.mp h
      cases he
      exact .click hc (.respond hok)

theorem panel_core (h : panelStep cfg p a = some (p', es)) :
    p'.core = p.core ∧ es = [] ∨ ∃ b, step cfg p.core b = some (p'.core, es) := by
  cases panel_step h with
  | core _ hs => exact Or.inr ⟨_, hs⟩
  | replay _ hs => exact Or.inr ⟨_, hs⟩
  | _ => exact Or.inl ⟨rfl, rfl⟩

/-- **A run of the panel is a run of the system.** -/
theorem panel_run (hr : Lts.Run (panel cfg) anyPanelStep h p) :
    Lts.Run (system cfg) always h p.core := by
  refine hr.invariant (I := fun h p => Lts.Run (system cfg) always h p.core) ?_ ?_
  · intro p hi
    exact Lts.Run.init (S := system cfg) hi.core
  · intro h p a p' es _ hrun _ hstep
    rcases panel_core hstep with ⟨hcore, rfl⟩ | ⟨b, hb⟩
    · rwa [hcore]
    · exact hrun.snoc rfl hb

/-! ### One request -/

theorem RetryTurn.replayed_eq (h : RetryTurn s J pc pc') : pc'.replayed = pc.replayed := by
  cases h with
  | fail hpc => rcases hpc with rfl | rfl <;> rfl
  | _ => rfl

theorem getElem?_receive (hn : p.requests[n]? = some rq) (id : JobId) :
    (p.receive id).requests[n]? = some rq := by
  obtain ⟨hlt, hget⟩ := List.getElem?_eq_some_iff.mp hn
  rw [Panel.receive, List.getElem?_append_left hlt, hn]

theorem getElem?_setRequest (p : Panel) (m n : Nat) (rq : RetryRequest) :
    (p.setRequest m rq).requests[n]? =
      if m = n then (p.requests[n]?).map (fun _ => rq) else p.requests[n]? := by
  show (p.requests.set m rq)[n]? = _
  rw [List.getElem?_set']
  rfl

theorem request_step (h : panelStep cfg p a = some (p', es))
    (hn : p.requests[n]? = some ⟨J, pc⟩) : ∃ pc', p'.requests[n]? = some ⟨J, pc'⟩ ∧
      (pc' = pc ∨ RetryTurn p.core J pc pc' ∨
        pc = .updating ∧ pc' = .responding ∧ es = [.replayed J]) := by
  cases panel_step h with
  | core | call | click => exact ⟨pc, hn, Or.inl rfl⟩
  | request | arrive => exact ⟨pc, getElem?_receive hn _, Or.inl rfl⟩
  | @replay m J' s hm _ =>
    rw [getElem?_setRequest]
    split
    · rename_i hmn
      subst hmn
      cases hm.symm.trans hn
      exact ⟨.responding, by rw [hn]; rfl, Or.inr (Or.inr ⟨rfl, rfl, rfl⟩)⟩
    · exact ⟨pc, hn, Or.inl rfl⟩
  | @turn _ m J' pc₁ pc₂ hm ht =>
    rw [getElem?_setRequest]
    split
    · rename_i hmn
      subst hmn
      cases hm.symm.trans hn
      exact ⟨pc₂, by rw [hn]; rfl, Or.inr (Or.inl ht)⟩
    · exact ⟨pc, hn, Or.inl rfl⟩

theorem request_new (h : panelStep cfg p a = some (p', es)) (hn : p.requests[n]? = none)
    (hn' : p'.requests[n]? = some rq) : rq.pc = .updating := by
  have hle : p.requests.length ≤ n := List.getElem?_eq_none_iff.mp hn
  have hnew : ∀ id, (p.receive id).requests[n]? = some rq → rq.pc = .updating := by
    intro id hid
    rw [Panel.receive, List.getElem?_append_right hle, List.getElem?_singleton] at hid
    split at hid <;> cases hid
    rfl
  cases panel_step h with
  | core | call | click => cases hn.symm.trans hn'
  | request | arrive => exact hnew _ hn'
  | replay | turn =>
    rw [getElem?_setRequest, hn] at hn'
    simp at hn'

/-! ### One request for each replay -/

theorem count_replayed_of_not_retry {b : Action} (hb : b.isRetry = false)
    (hstep : step cfg s b = some (t, es)) : es.count (.replayed J) = 0 := by
  obtain ⟨before, after, e, ls, -, -, he, -, hE⟩ := step_effect hstep J
  rw [← count_jobEvents, he]
  cases hE with
  | replay => cases hb
  | stay | beat => rfl
  | _ => simp

theorem countP_setRequest (J : JobId) (pc' : RetryPc) {J' : JobId}
    (hn : p.requests[n]? = some ⟨J', pc⟩) :
    (p.setRequest n ⟨J', pc'⟩).requests.countP (RetryRequest.replays J) +
      (if RetryRequest.replays J ⟨J', pc⟩ then 1 else 0) =
    p.requests.countP (RetryRequest.replays J) +
      (if RetryRequest.replays J ⟨J', pc'⟩ then 1 else 0) := by
  obtain ⟨hlt, hget⟩ := List.getElem?_eq_some_iff.mp hn
  show (p.requests.set n _).countP _ + _ = _
  rw [List.countP_set hlt, hget]
  have hle : (if RetryRequest.replays J ⟨J', pc⟩ then 1 else 0) ≤
      p.requests.countP (RetryRequest.replays J) := by
    split
    · rename_i hr
      exact List.countP_pos_iff.mpr ⟨_, List.mem_of_getElem? hn, hr⟩
    · exact Nat.zero_le _
  omega

theorem countP_receive (p : Panel) (id : JobId) :
    (p.receive id).requests.countP (RetryRequest.replays J) =
      p.requests.countP (RetryRequest.replays J) := by
  rw [Panel.receive, List.countP_append]
  simp [RetryRequest.replays, RetryPc.replayed]

/-- **Each replay is that of one request.** -/
theorem run_replays (hr : Lts.Run (panel cfg) anyPanelStep h p) (J : JobId) :
    h.count (.replayed J) = p.requests.countP (RetryRequest.replays J) := by
  refine hr.invariant (I := fun h p =>
    h.count (.replayed J) = p.requests.countP (RetryRequest.replays J)) ?_ ?_
  · intro p hi
    rw [hi.requests]
    rfl
  · intro h p a p' es _ ih _ hstep
    rw [List.count_append, ih]
    cases panel_step hstep with
    | core hb hs =>
      rw [count_replayed_of_not_retry hb hs]
      exact Nat.zero_add _
    | request | arrive =>
      refine Eq.trans ?_ (countP_receive p _).symm
      simp
    | call | click => exact Nat.zero_add _
    | @replay n J' s hn _ =>
      have hset := countP_setRequest (p := { p with core := s }) J .responding hn
      by_cases hJ : J' = J
      · subst hJ
        simp [RetryRequest.replays, RetryPc.replayed] at hset ⊢
        omega
      · simp [RetryRequest.replays, RetryPc.replayed, hJ] at hset ⊢
        omega
    | @turn _ n J' pc pc' hn ht =>
      have hset := countP_setRequest J pc' hn
      have hsame : RetryRequest.replays J ⟨J', pc'⟩ = RetryRequest.replays J ⟨J', pc⟩ := by
        simp only [RetryRequest.replays, ht.replayed_eq]
      rw [hsame] at hset
      rw [List.count_nil]
      omega

/-! ### The job and its replays -/

/-- The job `J` is dead-lettered. -/
def State.Dead (s : State) (J : JobId) : Prop :=
  ∃ r, s.row J = some r ∧ r.status = .deadLettered

/-- The event dead-letters the job `J`. -/
def Event.buries (J : JobId) : Event → Bool
  | .deadLettered _ _ id => decide (id = J)
  | _ => false

/-- A replay takes a dead-lettered row, in a step of its own. -/
theorem step_of_replayed {b : Action} (hstep : step cfg s b = some (t, es))
    (hm : .replayed J ∈ es) : es = [.replayed J] ∧ s.Dead J ∧ ¬ t.Dead J := by
  obtain ⟨before, after, e, ls, hb, ha, he, -, hE⟩ := step_effect hstep J
  have hmem : .replayed J ∈ e := he ▸ mem_jobEvents.mpr ⟨hm, rfl⟩
  cases hE with
  | replay hd =>
    refine ⟨?_, ⟨_, hb, hd⟩, ?_⟩
    · simp only [step] at hstep
      split at hstep <;> cases hstep
      · cases hm
      · rfl
    · rintro ⟨r', hr', hd'⟩
      cases ha.symm.trans hr'
      cases hd'
  | stay | beat => cases hmem
  | _ => cases List.mem_singleton.mp hmem

theorem buries_of_dead {b : Action} (hstep : step cfg s b = some (t, es)) (hs : ¬ s.Dead J)
    (ht : t.Dead J) : ∃ e ∈ es, e.buries J = true := by
  obtain ⟨before, after, e, ls, hb, ha, he, -, hE⟩ := step_effect hstep J
  obtain ⟨r', hr', hd'⟩ := ht
  rw [ha] at hr'
  have hmem : ∀ x, x ∈ e → x ∈ es := fun x hx => (mem_jobEvents.mp (he ▸ hx)).1
  cases hE with
  | giveUp | bury => exact ⟨_, hmem _ List.mem_cons_self, decide_eq_true rfl⟩
  | stay | deliver => exact absurd ⟨r', hb.trans hr', hd'⟩ hs
  | beat hc =>
    cases hr'
    cases hc.symm.trans hd'
  | _ =>
    cases hr'
    cases hd'

theorem dead_step {b : Action} (hstep : step cfg s b = some (t, es)) (hs : s.Dead J) :
    t.Dead J ∨ .replayed J ∈ es := by
  obtain ⟨before, after, e, ls, hb, ha, he, -, hE⟩ := step_effect hstep J
  obtain ⟨r, hr, hd⟩ := hs
  rw [hb] at hr
  have hne : ∀ {r₀ : Job} {st : JobStatus}, some r₀ = some r → r₀.status = st →
      st ≠ .deadLettered → False := by
    rintro r₀ st h rfl hst
    cases h
    exact hst hd
  cases hE with
  | replay =>
    have hmem : .replayed J ∈ jobEvents J es := by
      rw [he]
      exact List.mem_cons_self
    exact Or.inr (mem_jobEvents.mp hmem).1
  | stay | deliver => exact Or.inl ⟨r, ha.trans hr, hd⟩
  | giveUp | bury => exact Or.inl ⟨_, ha, rfl⟩
  | create => cases hr
  | promote _ _ h | claim _ h | beat h | send _ _ h | retry _ _ _ h | defer _ _ h | reclaim _ _ h =>
    exact (hne hr h (by decide)).elim

theorem row_panel (h : panelStep cfg p a = some (p', es)) {r : Job} (hr : p.core.row J = some r) :
    ∃ r', p'.core.row J = some r' := by
  rcases panel_core h with ⟨hcore, -⟩ | ⟨b, hb⟩
  · exact ⟨r, by rw [hcore, hr]⟩
  · obtain ⟨r', hr', -⟩ := row_fixed hb hr
    exact ⟨r', hr'⟩

/-- **Between two replays of a job it has been dead-lettered.** -/
theorem run_replays_between (hr : Lts.Run (panel cfg) anyPanelStep h p) {k₁ k₂ k₃ : List Event}
    (hh : h = k₁ ++ .replayed J :: (k₂ ++ .replayed J :: k₃)) :
    ∃ e ∈ k₂, e.buries J = true := by
  refine (panel_run hr).between (fun s => s.Dead J)
    (fun e => decide (e = .replayed J)) ?_ ?_ hh (decide_eq_true rfl) (decide_eq_true rfl)
  · intro s b t es x hstep hx hmark
    obtain rfl := of_decide_eq_true hmark
    exact step_of_replayed hstep hx
  · intro s b t es hstep
    exact buries_of_dead hstep

/-! ### What the requests are answered -/

/-- What is told of a job after the run `h`. -/
structure RetriesAnswered (cfg : Settings) (h : List Event) (p : Panel) : Prop where
  /-- Each replay is that of one request, which is answered with 200 if it is answered. -/
  replays : ∀ J, h.count (.replayed J) = p.requests.countP (RetryRequest.replays J)
  /-- Between two replays of a job it has been dead-lettered. -/
  between : ∀ J k₁ k₂ k₃, h = k₁ ++ .replayed J :: (k₂ ++ .replayed J :: k₃) →
    ∃ e ∈ k₂, e.buries J = true
  /-- A 409 is for a job that exists. -/
  conflict : ∀ rq ∈ p.requests, rq.pc = .notDeadLettered → ∃ r, p.core.row rq.job = some r
  /-- A request for a job that exists is never answered with 404. -/
  found : ∀ (n : Nat) (J : JobId) r k (p' : Panel), p.requests[n]? = some ⟨J, .updating⟩ →
    p.core.row J = some r → Lts.Path (panel cfg) anyPanelStep p k p' →
      p'.requests[n]? ≠ some ⟨J, .notFound⟩
  /-- A request for a dead-lettered job is answered with 409 only if another one
  has replayed the job since it arrived. -/
  refused : ∀ (n : Nat) (J : JobId) k (p' : Panel), p.requests[n]? = some ⟨J, .updating⟩ →
    p.core.Dead J → Lts.Path (panel cfg) anyPanelStep p k p' →
    p'.requests[n]? = some ⟨J, .notDeadLettered⟩ → .replayed J ∈ k

theorem run_conflict (hr : Lts.Run (panel cfg) anyPanelStep h p) : ∀ (n : Nat) (J : JobId),
    p.requests[n]? = some ⟨J, .notDeadLettered⟩ → ∃ r, p.core.row J = some r := by
  refine hr.invariant (I := fun _ p => ∀ (n : Nat) (J : JobId),
    p.requests[n]? = some ⟨J, .notDeadLettered⟩ → ∃ r, p.core.row J = some r) ?_ ?_
  · intro p hi n J hn
    rw [hi.requests] at hn
    cases hn
  · intro h p a p' es _ ih _ hstep n J hn
    cases hold : p.requests[n]? with
    | none => cases request_new hstep hold hn
    | some rq =>
      obtain ⟨J', pc⟩ := rq
      obtain ⟨pc', hn', hpc⟩ := request_step hstep hold
      cases hn.symm.trans hn'
      rcases hpc with rfl | hturn | ⟨-, hpc, -⟩
      · obtain ⟨r, hrow⟩ := ih n _ hold
        exact row_panel hstep hrow
      · cases hturn with
        | found hrow => exact row_panel hstep hrow
      · cases hpc

theorem path_found {p₀ : Panel} {r : Job} (hn : p₀.requests[n]? = some ⟨J, .updating⟩)
    (hrow : p₀.core.row J = some r) (hp : Lts.Path (panel cfg) anyPanelStep p₀ k p) :
    (∃ r, p.core.row J = some r) ∧
      ∃ pc, p.requests[n]? = some ⟨J, pc⟩ ∧ pc ≠ .notFound := by
  refine hp.invariant (I := fun _ p => (∃ r, p.core.row J = some r) ∧
    ∃ pc, p.requests[n]? = some ⟨J, pc⟩ ∧ pc ≠ .notFound) ?_ ?_
  · exact ⟨⟨r, hrow⟩, .updating, hn, by decide⟩
  · rintro k p a p' es - ⟨⟨r, hrow⟩, pc, hpc, hne⟩ - hstep
    refine ⟨row_panel hstep hrow, ?_⟩
    obtain ⟨pc', hpc', hcases⟩ := request_step hstep hpc
    refine ⟨pc', hpc', ?_⟩
    rintro rfl
    rcases hcases with h | hturn | ⟨-, h, -⟩
    · exact hne h.symm
    · cases hturn with
      | missing hnone => cases hnone.symm.trans hrow
    · cases h

/-- What is dead-lettered stays so, and a request for it matches, until the job
is replayed. -/
theorem path_refused {p₀ : Panel} (hn : p₀.requests[n]? = some ⟨J, .updating⟩)
    (hdead : p₀.core.Dead J) (hp : Lts.Path (panel cfg) anyPanelStep p₀ k p) :
    .replayed J ∈ k ∨ p.core.Dead J ∧ ∃ pc, p.requests[n]? = some ⟨J, pc⟩ ∧
      (pc = .updating ∨ pc = .failed) := by
  refine hp.invariant (I := fun k p => .replayed J ∈ k ∨ p.core.Dead J ∧
    ∃ pc, p.requests[n]? = some ⟨J, pc⟩ ∧ (pc = .updating ∨ pc = .failed)) ?_ ?_
  · exact Or.inr ⟨hdead, .updating, hn, Or.inl rfl⟩
  · rintro k p a p' es - ih - hstep
    rcases ih with hk | ⟨hdead, pc, hpc, hcase⟩
    · exact Or.inl (List.mem_append_right _ hk)
    · by_cases hrep : .replayed J ∈ es
      · exact Or.inl (List.mem_append_left _ hrep)
      · have hdead' : p'.core.Dead J := by
          rcases panel_core hstep with ⟨hcore, -⟩ | ⟨b, hb⟩
          · rwa [hcore]
          · exact (dead_step hb hdead).resolve_right hrep
        obtain ⟨pc', hpc', hcases⟩ := request_step hstep hpc
        refine Or.inr ⟨hdead', pc', hpc', ?_⟩
        rcases hcases with rfl | hturn | ⟨-, -, rfl⟩
        · exact hcase
        · obtain ⟨r, hr, hd⟩ := hdead
          cases hturn with
          | miss hno => exact absurd hd (hno r hr)
          | fail => exact Or.inr rfl
          | found | missing | answer | lose => rcases hcase with h | h <;> cases h
        · exact absurd List.mem_cons_self hrep

/-- **Replays and their requests**, in every run. -/
theorem retries_answered (hr : Lts.Run (panel cfg) anyPanelStep h p) :
    RetriesAnswered cfg h p where
  replays := run_replays hr
  between J k₁ k₂ k₃ hh := run_replays_between hr hh
  conflict rq hrq hpc := by
    obtain ⟨n, hn⟩ := List.mem_iff_getElem?.mp hrq
    obtain ⟨J, pc⟩ := rq
    obtain rfl : pc = .notDeadLettered := hpc
    exact run_conflict hr n J hn
  found n J r k p' hn hrow hp := by
    obtain ⟨-, pc, hpc, hne⟩ := path_found hn hrow hp
    intro hnot
    cases hpc.symm.trans hnot
    exact hne rfl
  refused n J k p' hn hdead hp hpc := by
    rcases path_refused hn hdead hp with hk | ⟨-, pc, hpc', hcase⟩
    · exact hk
    · cases hpc.symm.trans hpc'
      rcases hcase with h | h <;> cases h

/-- Job `7` has one attempt, which fails.  Three retries of it race, one of a job
that does not exist comes along, and the answer to the second is lost. -/
theorem retries_answered_race : ∃ h p, Lts.Run (panel { maxAttempts := 1 }) anyPanelStep h p ∧
    p.requests = [⟨7, .notDeadLettered⟩, ⟨7, .lost⟩, ⟨9, .notFound⟩, ⟨7, .failed⟩] ∧
    RetriesAnswered { maxAttempts := 1 } h p := by
  obtain ⟨p, h, hr, hf⟩ := Lts.run_of_replay (panel { maxAttempts := 1 }) anyPanelStep
    ((Action.createJob 7 plainJob :: promotion 0 7 ++ claim 1 ++
      [work 1, work 1, work 1, work 1]).map .core ++
      [.request 7, .request 7, .request 9, .request 7, .next 1, .next 0, .next 2, .abort 1,
        .abort 3, .next 0, .next 2])
    (fun x => x.1.requests)
    [⟨7, .notDeadLettered⟩, ⟨7, .lost⟩, ⟨9, .notFound⟩, ⟨7, .failed⟩] panelInitial_empty
    (by decide +kernel)
  exact ⟨h, p, hr, hf, retries_answered hr⟩

end NotifyQueue
