import NotifyQueue.Safety.Client

/-!
# What the form reports

`submitJob` takes the answer to its latest request for the answer to all of
them.  An earlier request may have committed unseen, so after `requestFailed`
nothing is known.  Every other report is right, whatever became of the earlier
requests, and stays so: a job reported as scheduled is there with what the form
said (`Told.scheduled`), a duplicate is reported only of a key that belongs to a
job, and a body reported as invalid has inserted nothing and never will.
-/

namespace NotifyQueue

open KeyedTable

/-- The request `q` has committed the job `J` for `body`. -/
def Site.CommitsFor (s : Site) (q : RequestId) (body : JobBody) (J : JobId) : Prop :=
  ∃ rq, s.requests q = some rq ∧ rq.body = body ∧ rq.pc.committed? = some J

/-- The API rejects the body. -/
def FormBody.rejected (body : FormBody) : Bool := body.jobBody?.all (fun b => !b.valid)

/-- What a report of the submission rests on. -/
inductive Told (s : Site) (sub : Submission) : SubmitResult → Prop
  | scheduled {q : RequestId} {body : JobBody} {J : JobId} : q ∈ sub.reached →
      sub.body.jobBody? = some body → s.CommitsFor q body J → Told s sub (.scheduled J)
  | duplicate {body : JobBody} {key : String} {J : JobId} : sub.body.jobBody? = some body →
      body.idempotencyKey = some key → s.idempotency.committed key = some J →
      Told s sub (.duplicate (some J))
  | invalid : sub.body.rejected = true → Told s sub .invalid
  | requestFailed : Told s sub .requestFailed

/-- What a submission has sent, and what it has reported. -/
structure Reported (s : Site) (sub : Submission) : Prop where
  body : ∀ q ∈ sub.reached, ∃ rq, s.requests q = some rq ∧ sub.body.jobBody? = some rq.body
  unread : .unprocessable ∈ sub.attempts → sub.body.jobBody? = none
  told : ∀ result, sub.result = some result → Told s sub result

variable {cfg : Settings} {product : Rat → Rat → Rat} {s t : Site} {w w' : Web}
  {es h : List Event} {q : RequestId} {rq : Request} {c : SubmissionId} {sub sub' : Submission}
  {J : JobId} {body : JobBody} {result : SubmitResult}

/-! ### The site goes on -/

theorem commitsFor_step {a : SiteAction} (hs : Consistent s)
    (hstep : siteStep cfg s a = some (t, es)) (hc : s.CommitsFor q body J) :
    t.CommitsFor q body J := by
  obtain ⟨rq, hq, hbody, hJ⟩ := hc
  rcases site_step hs hstep with ⟨core, b, -, -, rfl⟩ | ⟨p, rp, ht⟩
  · exact ⟨rq, hq, hbody, hJ⟩
  · obtain ⟨rq', hq', hb, hJ'⟩ := ht.commits hq hJ
    exact ⟨rq', hq', hb.trans hbody, hJ'⟩

theorem Told.step {a : SiteAction} (htold : Told s sub result) (hs : Consistent s)
    (hstep : siteStep cfg s a = some (t, es)) : Told t sub result := by
  cases htold with
  | scheduled hq hb hc => exact .scheduled hq hb (commitsFor_step hs hstep hc)
  | duplicate hb hk hl => exact .duplicate hb hk (linked_step hs hstep hl)
  | invalid hr => exact .invalid hr
  | requestFailed => exact .requestFailed

theorem Reported.step {a : SiteAction} (hrep : Reported s sub) (hs : Consistent s)
    (hstep : siteStep cfg s a = some (t, es)) : Reported t sub where
  body q hq := by
    obtain ⟨rq, hrq, hbody⟩ := hrep.body q hq
    obtain ⟨rq', hrq', hsame⟩ := body_step hs hstep hrq
    exact ⟨rq', hrq', by rw [hbody, hsame]⟩
  unread := hrep.unread
  told result hr := (hrep.told result hr).step hs hstep

theorem run_rejected (hr : Lts.Run (site cfg) anyStep h s) : ∀ q rq,
    s.requests q = some rq → rq.pc = .rejected → rq.body.valid = false := by
  refine hr.invariant (I := fun _ s => ∀ q rq,
    s.requests q = some rq → rq.pc = .rejected → rq.body.valid = false) ?_ ?_
  · intro s hi q rq hq
    rw [hi.requests] at hq
    cases hq
  · intro h s a t es hr ih _ hstep q rq hq hpc
    have hother : ∀ {p rp}, t.requests = Function.update s.requests p (some rp) → q ≠ p →
        rq.body.valid = false := by
      intro p rp ht hqp
      rw [ht, Function.update_of_ne hqp] at hq
      exact ih q rq hq hpc
    cases site_cases hstep with
    | core => exact ih q rq hq hpc
    | @post p body now hp =>
      by_cases hqp : q = p
      · subst hqp
        cases (Function.update_self q _ s.requests).symm.trans hq
        simp only [receive] at hpc
        split at hpc
        · split at hpc <;> cases hpc
        · rename_i hv
          exact Bool.eq_false_iff.mpr hv
      · exact hother rfl hqp
    | @next p drawn body pc _ _ hp hn =>
      obtain ⟨pc', ht, hne, -⟩ := request_of_next hn
      by_cases hqp : q = p
      · subst hqp
        rw [ht, Function.update_self] at hq
        cases hq
        exact absurd hpc hne
      · exact hother ht hqp
    | @abort p body pc _ hp ha =>
      obtain ⟨pc', ht, hne, -⟩ := request_of_abort ha
      by_cases hqp : q = p
      · subst hqp
        rw [ht, Function.update_self] at hq
        cases hq
        exact absurd hpc hne
      · exact hother ht hqp

theorem priority_step {a : SiteAction} (hstep : siteStep cfg s a = some (t, es)) {r : Job}
    (hr : s.core.row J = some r) : ∃ r', t.core.row J = some r' ∧ r'.priority = r.priority := by
  rcases core_step hstep with ⟨hcore, -⟩ | ⟨b, hb⟩
  · exact ⟨r, by rw [hcore, hr], rfl⟩
  · obtain ⟨before, after, e, ls, hbefore, hafter, -, -, hE⟩ := step_effect hb J
    obtain ⟨r', hr', -, hp⟩ := hE.fixed (hbefore.symm.trans hr)
    exact ⟨r', hafter.trans hr', hp⟩

theorem row_of_commit {drawn : JobId} {pc : RequestPc}
    (h : requestNext cfg s q body drawn pc = some (t, [.created J])) :
    (∃ sendAt, t.core.row J = some (insertJob cfg s.core.db.now J (body.columns sendAt))) ∧
      t.requests q = some ⟨body, .responding J⟩ := by
  cases pc with
  | inserting sendAt =>
    simp only [requestNext] at h
    split at h <;> cases h
  | keying id sendAt key =>
    simp only [requestNext] at h
    split at h <;> cases h
  | committing id sendAt =>
    obtain ⟨⟨core, es'⟩, hcore, he⟩ := Option.map_eq_some_iff.mp h
    obtain ⟨jobs, hi, hjobs⟩ := Option.map_eq_some_iff.mp hcore
    cases hjobs
    cases he
    exact ⟨⟨sendAt, ((Table.find?_insert? hi).2 J).trans (if_pos rfl)⟩,
      Function.update_self _ _ _⟩
  | responding | rollingBack | looking | created | conflict | rejected | failed | lost => cases h

theorem run_priority (hr : Lts.Run (site cfg) anyStep h s) : ∀ q rq J r,
    s.requests q = some rq → rq.pc.committed? = some J → s.core.row J = some r →
    r.priority = rq.body.priority := by
  refine hr.invariant (I := fun _ s => ∀ q rq J r, s.requests q = some rq →
    rq.pc.committed? = some J → s.core.row J = some r → r.priority = rq.body.priority) ?_ ?_
  · intro s hi q rq J r hq
    rw [hi.requests] at hq
    cases hq
  · intro h s a t es hr ih _ hstep q rq J r hq hJ hrow
    have hs := run_consistent hr
    -- a job that was committed before has kept its row, and the row its priority
    have hold : ∀ rq₀, s.requests q = some rq₀ → rq₀.body = rq.body →
        rq₀.pc.committed? = some J → r.priority = rq.body.priority := by
      intro rq₀ hq₀ hbody hJ₀
      obtain ⟨r₀, hr₀, -⟩ := ((hs.request q rq₀ hq₀).committed hJ₀).row
      obtain ⟨r', hr', hp⟩ := priority_step hstep hr₀
      cases hrow.symm.trans hr'
      rw [hp, ih q rq₀ J r₀ hq₀ hJ₀ hr₀, hbody]
    have hother : ∀ {p rp}, t.requests = Function.update s.requests p (some rp) → q ≠ p →
        r.priority = rq.body.priority := by
      intro p rp ht hqp
      rw [ht, Function.update_of_ne hqp] at hq
      exact hold rq hq rfl hJ
    cases site_cases hstep with
    | core => exact hold rq hq rfl hJ
    | @post p body now hp =>
      by_cases hqp : q = p
      · subst hqp
        cases (Function.update_self q _ s.requests).symm.trans hq
        rw [(receive_ok s q body now).2.2] at hJ
        cases hJ
      · exact hother rfl hqp
    | @next p drawn body pc _ _ hp hn =>
      obtain ⟨pc', ht, -, hpc⟩ := request_of_next hn
      by_cases hqp : q = p
      · subst hqp
        rw [ht, Function.update_self] at hq
        cases hq
        rcases hpc with hpc | ⟨J', rfl⟩
        · exact hold _ hp rfl (hpc.symm.trans hJ)
        · obtain ⟨⟨sendAt, hnew⟩, hq'⟩ := row_of_commit hn
          rw [ht, Function.update_self] at hq'
          cases hq'
          cases hJ
          cases hrow.symm.trans hnew
          rfl
      · exact hother ht hqp
    | @abort p body pc _ hp ha =>
      obtain ⟨pc', ht, -, hpc⟩ := request_of_abort ha
      by_cases hqp : q = p
      · subst hqp
        rw [ht, Function.update_self] at hq
        cases hq
        exact hold _ hp rfl (hpc.symm.trans hJ)
      · exact hother ht hqp

/-! ### One submission -/

/-- What a step of the web does to a submission that is there already. -/
structure SubmissionStep (w w' : Web) (sub sub' : Submission) : Prop where
  body : sub'.body = sub.body
  keeps : ∀ q ∈ sub.reached, q ∈ sub'.reached
  sends : ∀ q ∈ sub'.reached, q ∈ sub.reached ∨
    ∃ rq, w'.site.requests q = some rq ∧ sub.body.jobBody? = some rq.body
  unread : .unprocessable ∈ sub'.attempts →
    .unprocessable ∈ sub.attempts ∨ sub.body.jobBody? = none
  results : ∀ result, sub'.result = some result → sub.result = some result ∨
    result = .requestFailed ∨ w.answer? sub = some result

theorem SubmissionStep.refl (w w' : Web) (sub : Submission) : SubmissionStep w w' sub sub :=
  ⟨rfl, fun _ hq => hq, fun _ hq => Or.inl hq, fun h => Or.inl h, fun _ h => Or.inl h⟩

theorem reached_of_setAttempt {n : Nat} {attempt : Attempt}
    (hn : sub.attempts[n]? = some .sending) (hq : q ∈ sub.reached) :
    q ∈ (sub.setAttempt n attempt).reached := by
  obtain ⟨x, hx, hxq⟩ := List.mem_filterMap.mp hq
  obtain ⟨m, hm⟩ := List.mem_iff_getElem?.mp hx
  have hne : n ≠ m := by
    rintro rfl
    cases hn.symm.trans hm
    cases hxq
  refine List.mem_filterMap.mpr ⟨x, List.mem_iff_getElem?.mpr ⟨m, ?_⟩, hxq⟩
  exact (List.getElem?_set_ne hne).trans hm

theorem step_of_setAttempt {n : Nat} {attempt : Attempt}
    (hn : sub.attempts[n]? = some .sending)
    (hq : ∀ q, attempt.request? = some q →
      ∃ rq, w'.site.requests q = some rq ∧ sub.body.jobBody? = some rq.body)
    (hu : attempt = .unprocessable → sub.body.jobBody? = none) :
    SubmissionStep w w' sub (sub.setAttempt n attempt) where
  body := rfl
  keeps _ hq := reached_of_setAttempt hn hq
  sends q hq' := (reached_setAttempt hq').symm.imp id (hq q)
  unread h := (List.mem_or_eq_of_mem_set h).imp id (fun h => hu h.symm)
  results _ h := Or.inl h

theorem step_fetchFailed (w w' : Web) (sub : Submission) :
    SubmissionStep w w' sub sub.fetchFailed where
  body := body_fetchFailed sub
  keeps q hq := by rwa [reached_fetchFailed]
  sends q hq := by
    rw [reached_fetchFailed] at hq
    exact Or.inl hq
  unread h := by
    rw [Submission.fetchFailed] at h
    split at h
    · exact Or.inl h
    · rcases List.mem_append.mp h with h | h
      · exact Or.inl h
      · cases List.mem_singleton.mp h
  results result h := by
    rw [Submission.fetchFailed] at h
    split at h
    · cases h
      exact Or.inr (Or.inl rfl)
    · exact Or.inl h

/-- **A step and a submission**: a new one, or one that was there. -/
theorem submission_step {a : WebAction} (h : webStep cfg product w a = some (w', es))
    (hc : w'.submissions c = some sub') :
    (sub'.attempts = [.sending] ∧ sub'.result = none) ∨
      ∃ sub, w.submissions c = some sub ∧ SubmissionStep w w' sub sub' := by
  have hset : ∀ {v : Web} {d : SubmissionId} {x y : Submission}, v.submissions = w.submissions →
      w' = v.setSubmission d y → w.submissions d = some x → SubmissionStep w w' x y →
      ∃ sub, w.submissions c = some sub ∧ SubmissionStep w w' sub sub' := by
    intro v d x y hv hw hx hxy
    rw [hw, submissions_setSubmission] at hc
    split at hc
    · rename_i hcd
      subst hcd
      cases hc
      exact ⟨x, hx, hxy⟩
    · rw [hv] at hc
      exact ⟨sub', hc, .refl w w' sub'⟩
  cases a with
  | site b =>
    obtain ⟨⟨s, es'⟩, -, he⟩ := Option.map_eq_some_iff.mp h
    cases he
    exact Or.inr ⟨sub', hc, .refl _ _ _⟩
  | submit d form =>
    simp only [webStep] at h
    split at h <;> cases h
    rw [submissions_setSubmission] at hc
    split at hc
    · cases hc
      exact Or.inl ⟨rfl, rfl⟩
    · exact Or.inr ⟨sub', hc, .refl _ _ _⟩
  | arrive d n q now =>
    obtain ⟨x, hx, h⟩ := Option.bind_eq_some_iff.mp h
    split at h
    · rename_i hn
      simp only [arrive] at h
      split at h
      · rename_i hnone
        cases h
        exact Or.inr (hset rfl rfl hx (step_of_setAttempt hn (fun q hq => by cases hq)
          (fun _ => hnone)))
      · rename_i body hbody
        obtain ⟨⟨s, es'⟩, hs, he⟩ := Option.map_eq_some_iff.mp h
        cases he
        refine Or.inr (hset (v := { w with site := s }) rfl rfl hx (step_of_setAttempt hn
          (fun p hp => ?_) (fun hu => by cases hu)))
        cases hp
        cases site_cases hs
        exact ⟨_, Function.update_self _ _ _, hbody⟩
    · cases h
  | lose d n =>
    obtain ⟨x, hx, h⟩ := Option.bind_eq_some_iff.mp h
    split at h
    · rename_i hn
      cases h
      exact Or.inr (hset rfl rfl hx (step_of_setAttempt hn (fun q hq => by cases hq)
        (fun hu => by cases hu)))
    · cases h
  | fetchFails d =>
    obtain ⟨x, hx, h⟩ := Option.bind_eq_some_iff.mp h
    split at h <;> cases h
    exact Or.inr (hset rfl rfl hx (step_fetchFailed _ _ _))
  | respond d =>
    obtain ⟨x, hx, h⟩ := Option.bind_eq_some_iff.mp h
    split at h
    · cases h
    · obtain ⟨result, hans, he⟩ := Option.map_eq_some_iff.mp h
      cases he
      refine Or.inr (hset rfl rfl hx ⟨rfl, fun _ hq => hq, fun _ hq => Or.inl hq,
        fun hu => Or.inl hu, fun r hr => ?_⟩)
      cases hr
      exact Or.inr (Or.inr hans)

/-! ### Every run -/

theorem site_of_web {a : WebAction} (h : webStep cfg product w a = some (w', es)) :
    w'.site = w.site ∨ ∃ b, siteStep cfg w.site b = some (w'.site, es) := by
  cases web_step h with
  | site hs => exact Or.inr ⟨_, hs⟩
  | arrive _ _ hs => exact Or.inr ⟨_, hs⟩
  | submit | quiet => exact Or.inl rfl

/-- The answer to the latest request is one to rely on. -/
theorem told_of_answer (hs : Consistent w.site)
    (hrejected : ∀ q rq, w.site.requests q = some rq → rq.pc = .rejected → rq.body.valid = false)
    (hrep : Reported w.site sub) (hans : w.answer? sub = some result) :
    Told w.site sub result := by
  rw [Web.answer?] at hans
  split at hans
  · rename_i q hlast
    obtain ⟨rq, hq, hans⟩ := Option.bind_eq_some_iff.mp hans
    have hmem : q ∈ sub.reached :=
      List.mem_filterMap.mpr ⟨_, List.mem_of_getLast? hlast, rfl⟩
    obtain ⟨rq', hq', hbody⟩ := hrep.body q hmem
    cases hq.symm.trans hq'
    have hok := hs.request q rq hq
    cases hpc : rq.pc with
    | created J =>
      rw [hpc] at hans
      cases hans
      exact .scheduled hmem hbody ⟨rq, hq, rfl, by rw [hpc]; rfl⟩
    | conflict existing =>
      rw [hpc] at hans hok
      cases hans
      cases hok with
      | conflict ht =>
        exact .duplicate hbody ((JobBody.key_of_valid ht.valid).symm.trans ht.keyed) ht.linked
    | rejected =>
      rw [hpc] at hans
      cases hans
      refine .invalid ?_
      rw [FormBody.rejected, hbody, Option.all_some, hrejected q rq hq hpc]
      rfl
    | failed | lost =>
      rw [hpc] at hans
      cases hans
      exact .requestFailed
    | _ =>
      rw [hpc] at hans
      cases hans
  · rename_i hlast
    cases hans
    refine .invalid ?_
    rw [FormBody.rejected, hrep.unread (List.mem_of_getLast? hlast)]
    rfl
  · cases hans

theorem Told.mono (htold : Told s sub result) (hbody : sub'.body = sub.body)
    (hkeep : ∀ q ∈ sub.reached, q ∈ sub'.reached) : Told s sub' result := by
  cases htold with
  | scheduled hq hb hc => exact .scheduled (hkeep _ hq) (hbody ▸ hb) hc
  | duplicate hb hk hl => exact .duplicate (hbody ▸ hb) hk hl
  | invalid hr => exact .invalid (hbody ▸ hr)
  | requestFailed => exact .requestFailed

theorem reported_step {a : WebAction} (hs : Consistent w.site)
    (hrejected : ∀ q rq, w.site.requests q = some rq → rq.pc = .rejected → rq.body.valid = false)
    (hrep : Reported w.site sub) (hstep : SubmissionStep w w' sub sub')
    (h : webStep cfg product w a = some (w', es)) : Reported w'.site sub' := by
  have hgrow : ∀ {x : Submission}, Reported w.site x → Reported w'.site x := by
    intro x hx
    rcases site_of_web h with hsite | ⟨b, hb⟩
    · rwa [hsite]
    · exact hx.step hs hb
  refine ⟨fun q hq => ?_, fun hu => ?_, fun result hr => ?_⟩
  · rw [hstep.body]
    exact (hstep.sends q hq).elim ((hgrow hrep).body q) id
  · rw [hstep.body]
    exact (hstep.unread hu).elim hrep.unread id
  · have htold : Told w'.site sub result := by
      rcases hstep.results result hr with hr | rfl | hans
      · exact (hgrow hrep).told result hr
      · exact .requestFailed
      · have hnow := told_of_answer hs hrejected hrep hans
        rcases site_of_web h with hsite | ⟨b, hb⟩
        · rwa [hsite]
        · exact hnow.step hs hb
    exact htold.mono hstep.body hstep.keeps

theorem run_reported (hr : Lts.Run (web cfg product) anyWebStep h w) :
    ∀ c sub, w.submissions c = some sub → Reported w.site sub := by
  refine hr.invariant (I := fun _ w => ∀ c sub, w.submissions c = some sub →
    Reported w.site sub) ?_ ?_
  · intro w hi c sub hc
    rw [hi.submissions] at hc
    cases hc
  · intro h w a w' es hr ih _ hstep c sub' hc
    have hsite := site_run hr
    rcases submission_step hstep hc with ⟨hatt, hres⟩ | ⟨sub, hold, hsub⟩
    · refine ⟨fun q hq => ?_, fun hu => ?_, fun result hr => ?_⟩
      · rw [Submission.reached, hatt] at hq
        cases hq
      · rw [hatt] at hu
        cases List.mem_singleton.mp hu
      · rw [hres] at hr
        cases hr
    · exact reported_step (run_consistent hsite) (run_rejected hsite) (ih c sub hold) hsub hstep

/-! ### The reports -/

/-- The row holds what the form said. -/
structure Job.Holds (r : Job) (body : FormBody) : Prop where
  recipient : r.recipient = body.recipient
  channel : r.channel = body.channel
  priority : r.priority = body.priority
  payload : r.payload = body.payload
  callbackUrl : r.callbackUrl = body.callbackUrl

/-- What the form has told the user is so. -/
structure FormReports (w : Web) : Prop where
  /-- A job reported as scheduled has been inserted by the submission, and is
  there with what the form said. -/
  scheduled : ∀ c sub J, w.submissions c = some sub → sub.result = some (.scheduled J) →
    w.Inserts c J ∧ ∃ r, w.site.core.row J = some r ∧ r.Holds sub.body
  /-- A duplicate is reported of a key that belongs to the job reported. -/
  duplicate : ∀ c sub existing, w.submissions c = some sub →
    sub.result = some (.duplicate existing) → ∃ key J r, existing = some J ∧
      sub.body.idempotencyKey = some key ∧ w.site.idempotency.committed key = some J ∧
      w.site.core.row J = some r
  /-- A submission reported as invalid has inserted nothing. -/
  invalid : ∀ c sub J, w.submissions c = some sub → sub.result = some .invalid →
    ¬ w.Inserts c J

theorem holds_of_jobBody? {r : Job} {fb : FormBody} (hb : fb.jobBody? = some body)
    (hf : r.letterFields = body.letterFields J) (hp : r.priority = body.priority) :
    r.Holds fb := by
  rw [FormBody.jobBody?] at hb
  split at hb <;> cases hb
  simp only [Job.letterFields, JobBody.letterFields, LetterFields.mk.injEq] at hf
  obtain ⟨-, hrec, hch, hpay, hcb⟩ := hf
  exact ⟨hrec, hch, hp, hpay, hcb⟩

theorem key_of_jobBody? {fb : FormBody} (hb : fb.jobBody? = some body) :
    body.idempotencyKey = fb.idempotencyKey := by
  rw [FormBody.jobBody?] at hb
  split at hb <;> cases hb
  rfl

/-- **What the form reports is so**, in every run, whatever becomes of its requests. -/
theorem form_reports (hr : Lts.Run (web cfg product) anyWebStep h w) : FormReports w := by
  have hsite := site_run hr
  have hs := run_consistent hsite
  refine ⟨fun c sub J hc hres => ?_, fun c sub existing hc hres => ?_, fun c sub J hc hres => ?_⟩
  · cases (run_reported hr c sub hc).told _ hres with
    | @scheduled q body _ hq hb hcommit =>
      obtain ⟨rq, hrq, rfl, hJ⟩ := hcommit
      have hcom := (hs.request q rq hrq).committed hJ
      obtain ⟨r, hrow, hf⟩ := hcom.row
      refine ⟨⟨sub, q, r, hc, hq, hcom.drawn, hrow⟩, r, hrow, ?_⟩
      exact holds_of_jobBody? hb hf (run_priority hsite q rq J r hrq hJ hrow)
  · cases (run_reported hr c sub hc).told _ hres with
    | @duplicate body key J hb hk hl =>
      obtain ⟨q, rq, hrq, -, hJ⟩ := hs.linked key J hl
      obtain ⟨r, hrow, -⟩ := ((hs.request q rq hrq).committed hJ).row
      exact ⟨key, J, r, rfl, (key_of_jobBody? hb).symm.trans hk, hl, hrow⟩
  · cases (run_reported hr c sub hc).told _ hres with
    | invalid hrej =>
      rintro ⟨sub', q, r, hc', hq, hd, hrow⟩
      cases hc.symm.trans hc'
      obtain ⟨rq, hrq, hb⟩ := (run_reported hr c sub hc).body q hq
      obtain ⟨rq', hrq', hJ⟩ := hs.committed_of_row hd hrow
      cases hrq.symm.trans hrq'
      have hv := ((hs.request q rq hrq).committed hJ).valid
      rw [FormBody.rejected, hb, Option.all_some, hv] at hrej
      cases hrej

/-- Submission 1 is answered after a response has been lost, submission 2 has a
delay of a second and a half. -/
theorem form_reports_resent : ∃ h w, Lts.Run (web {} (· * ·)) anyWebStep h w ∧
    (w.submissions 1).bind Submission.result = some (.duplicate (some 7)) ∧
    (w.submissions 2).bind Submission.result = some .invalid ∧
    (w.submissions 3).bind Submission.result = some (.scheduled 8) ∧ FormReports w := by
  obtain ⟨w, h, hr, hf⟩ := Lts.run_of_replay (web {} (· * ·)) anyWebStep
    [.submit 1 (smsForm "order"),
      .submit 2 { smsForm "" with scheduleMode := .delay, delayAmount := some (3 / 2) },
      .submit 3 (smsForm ""), .arrive 1 0 5 0, .site (.next 5 7), .site (.next 5 0),
      .site (.next 5 0), .fetchFails 1, .arrive 1 1 6 0, .site (.next 6 9), .site (.next 6 0),
      .site (.next 6 0), .site (.next 6 0), .respond 1, .arrive 2 0 4 0, .respond 2,
      .arrive 3 0 3 0, .site (.next 3 8), .site (.next 3 0), .site (.next 3 0), .respond 3]
    (fun p => ((p.1.submissions 1).bind Submission.result,
      (p.1.submissions 2).bind Submission.result, (p.1.submissions 3).bind Submission.result))
    (some (.duplicate (some 7)), some .invalid, some (.scheduled 8)) webInitial_empty
    (by decide +kernel)
  simp only [Prod.mk.injEq] at hf
  exact ⟨h, w, hr, hf.1, hf.2.1, hf.2.2, form_reports hr⟩

end NotifyQueue
