import NotifyQueue.Model.Client
import NotifyQueue.Safety.Submission

/-!
# One job for a submission

Every attempt of a submission carries the same body (`Sent.body`).  With a key
in it the index lets one of them commit, whatever the network does.  Without a
key nothing but the network stands between two commits: a request is sent again
when its response is lost, and `create_job` inserts again.  So the condition is
that a request without a key reaches the API only when the earlier attempts have
ended there with nothing committed (`resendsEnded`).

A run of the web is a run of the site (`site_run`), and what a request has ended
with it keeps (`barren_step`).
-/

namespace NotifyQueue

/-- Ended, with nothing committed. -/
def RequestPc.endsEmpty : RequestPc → Bool
  | .conflict _ | .rejected | .failed => true
  | _ => false

def Site.barren (s : Site) (q : RequestId) : Bool :=
  (s.requests q).any (fun rq => rq.pc.endsEmpty)

/-- A request without a key reaches the API only when those that the submission
has sent before have ended there with nothing committed. -/
def resendsEnded (w : Web) : WebAction → Bool
  | .arrive c _ _ _ => (w.submissions c).all (fun sub =>
    sub.body.idempotencyKey.isSome || sub.reached.all (fun q => w.site.barren q))
  | _ => true

/-- `J` is a row that a request of the submission `c` has inserted. -/
def Web.Inserts (w : Web) (c : SubmissionId) (J : JobId) : Prop := ∃ sub q r,
  w.submissions c = some sub ∧ q ∈ sub.reached ∧ w.site.drawnBy J = some q ∧
    w.site.core.row J = some r

/-- No submission has inserted two rows. -/
def OneJob (w : Web) : Prop := ∀ c J J', w.Inserts c J → w.Inserts c J' → J = J'

/-- What has become of the requests of a submission. -/
structure Sent (s : Site) (sub : Submission) : Prop where
  body : ∀ q ∈ sub.reached, ∃ rq, s.requests q = some rq ∧ sub.body.jobBody? = some rq.body
  alone : sub.body.idempotencyKey = none → ∀ q ∈ sub.reached, ∀ q' ∈ sub.reached,
    q = q' ∨ s.barren q = true ∨ s.barren q' = true

variable {cfg : Settings} {product : Rat → Rat → Rat} {s t : Site} {w w' : Web}
  {es h : List Event} {q : RequestId} {rq : Request} {c : SubmissionId} {sub sub' : Submission}
  {J : JobId}

/-! ### Requests and the steps of the site -/

theorem body_step {a : SiteAction} (hs : Consistent s) (hstep : siteStep cfg s a = some (t, es))
    (hq : s.requests q = some rq) : ∃ rq', t.requests q = some rq' ∧ rq'.body = rq.body := by
  rcases site_step hs hstep with ⟨core, b, -, -, rfl⟩ | ⟨p, rp, ht⟩
  · exact ⟨rq, hq, rfl⟩
  · by_cases hp : q = p
    · subst hp
      exact ⟨rp, ht.requests_self, (ht.keeps rq hq).1⟩
    · exact ⟨rq, (ht.requests_of_ne hp).trans hq, rfl⟩

/-- **What ended with nothing committed stays so.** -/
theorem barren_step {a : SiteAction} (hs : Consistent s)
    (hstep : siteStep cfg s a = some (t, es)) (hq : s.barren q = true) : t.barren q = true := by
  obtain ⟨⟨body, pc⟩, hrq, hend⟩ := (Option.any_eq_true _ _).mp hq
  obtain ⟨hnext, habort⟩ : (∀ drawn, requestNext cfg s q body drawn pc = none) ∧
      requestAbort s q body pc = none := by
    cases pc with
    | conflict | rejected | failed => exact ⟨fun _ => rfl, rfl⟩
    | _ => cases hend
  suffices hsame : t.requests q = s.requests q by rwa [Site.barren, hsame]
  cases site_cases hstep with
  | core => rfl
  | post body' now hp =>
    refine Function.update_of_ne ?_ _ _
    rintro rfl
    cases hp.symm.trans hrq
  | @next p drawn _ _ _ _ hp hn =>
    obtain ⟨rq', ht⟩ := turn_of_next hs hp hn
    refine ht.requests_of_ne ?_
    rintro rfl
    cases hrq.symm.trans hp
    cases (hnext drawn).symm.trans hn
  | abort hp ha =>
    obtain ⟨rq', ht⟩ := turn_of_abort hs hp ha
    refine ht.requests_of_ne ?_
    rintro rfl
    cases hrq.symm.trans hp
    cases habort.symm.trans ha

theorem Sent.step {a : SiteAction} (hsent : Sent s sub) (hs : Consistent s)
    (hstep : siteStep cfg s a = some (t, es)) : Sent t sub where
  body q hq := by
    obtain ⟨rq, hrq, hbody⟩ := hsent.body q hq
    obtain ⟨rq', hrq', hsame⟩ := body_step hs hstep hrq
    exact ⟨rq', hrq', by rw [hbody, hsame]⟩
  alone hkey q hq q' hq' := by
    rcases hsent.alone hkey q hq q' hq' with h | h | h
    · exact Or.inl h
    · exact Or.inr (Or.inl (barren_step hs hstep h))
    · exact Or.inr (Or.inr (barren_step hs hstep h))

theorem Sent.of_subset (hsent : Sent s sub) (hbody : sub'.body = sub.body)
    (hsub : ∀ q ∈ sub'.reached, q ∈ sub.reached) : Sent s sub' where
  body q hq := by
    rw [hbody]
    exact hsent.body q (hsub q hq)
  alone hkey q hq q' hq' := hsent.alone (hbody ▸ hkey) q (hsub q hq) q' (hsub q' hq')

theorem Sent.cons {body : JobBody} {now : Time} (hsent : Sent s sub) (hs : Consistent s)
    (hpost : siteStep cfg s (.post q body now) = some (t, es))
    (hbody : sub.body.jobBody? = some body) (hsame : sub'.body = sub.body)
    (hsub : ∀ p ∈ sub'.reached, p = q ∨ p ∈ sub.reached)
    (hended : sub.body.idempotencyKey = none → ∀ p ∈ sub.reached, s.barren p = true) :
    Sent t sub' := by
  have hold := hsent.step hs hpost
  refine ⟨fun p hp => ?_, fun hkey p hp p' hp' => ?_⟩
  · rw [hsame]
    rcases hsub p hp with rfl | hp
    · cases site_cases hpost
      exact ⟨_, Function.update_self _ _ _, hbody⟩
    · exact hold.body p hp
  · rw [hsame] at hkey
    have hall : ∀ p ∈ sub.reached, t.barren p = true := fun p hp =>
      barren_step hs hpost (hended hkey p hp)
    rcases hsub p hp with rfl | hp
    · rcases hsub p' hp' with rfl | hp'
      · exact Or.inl rfl
      · exact Or.inr (Or.inr (hall p' hp'))
    · exact Or.inr (Or.inl (hall p hp))

/-! ### Submissions and the steps of the web -/

theorem reached_setAttempt {n : Nat} {attempt : Attempt}
    (hq : q ∈ (sub.setAttempt n attempt).reached) :
    attempt.request? = some q ∨ q ∈ sub.reached := by
  obtain ⟨x, hx, hxq⟩ := List.mem_filterMap.mp hq
  rcases List.mem_or_eq_of_mem_set hx with hx | rfl
  · exact Or.inr (List.mem_filterMap.mpr ⟨x, hx, hxq⟩)
  · exact Or.inl hxq

theorem body_fetchFailed (sub : Submission) : sub.fetchFailed.body = sub.body := by
  rw [Submission.fetchFailed]
  split <;> rfl

/-- What is sent again has not arrived yet. -/
theorem reached_fetchFailed (sub : Submission) : sub.fetchFailed.reached = sub.reached := by
  rw [Submission.fetchFailed]
  split
  · rfl
  · rw [Submission.reached, List.filterMap_append]
    exact List.append_nil _

theorem submissions_setSubmission (w : Web) (c d : SubmissionId) (sub : Submission) :
    (w.setSubmission c sub).submissions d = if d = c then some sub else w.submissions d :=
  Function.update_apply w.submissions c (some sub) d

/-- What a step of the web does to the site and to the submissions. -/
inductive WebMove (cfg : Settings) (w : Web) : WebAction → Web → List Event → Prop
  | site {b : SiteAction} {s : Site} {es : List Event} : siteStep cfg w.site b = some (s, es) →
      WebMove cfg w (.site b) { w with site := s } es
  | submit {c : SubmissionId} {form : Form} {sub' : Submission} : sub'.reached = [] →
      WebMove cfg w (.submit c form) (w.setSubmission c sub') []
  | quiet {a : WebAction} {c : SubmissionId} {sub sub' : Submission} :
      w.submissions c = some sub → sub'.body = sub.body →
      (∀ q ∈ sub'.reached, q ∈ sub.reached) → WebMove cfg w a (w.setSubmission c sub') []
  | arrive {c : SubmissionId} {n : Nat} {q : RequestId} {now : Time} {sub : Submission}
      {body : JobBody} {s : Site} {es : List Event} : w.submissions c = some sub →
      sub.body.jobBody? = some body → siteStep cfg w.site (.post q body now) = some (s, es) →
      WebMove cfg w (.arrive c n q now)
        ({ w with site := s }.setSubmission c (sub.setAttempt n (.arrived q))) es

/-- **A step of the web**: one of the site, a new submission, one that sends
nothing, or a request that arrives. -/
theorem web_step {a : WebAction} (h : webStep cfg product w a = some (w', es)) :
    WebMove cfg w a w' es := by
  cases a with
  | site b =>
    obtain ⟨⟨s, es'⟩, hs, he⟩ := Option.map_eq_some_iff.mp h
    cases he
    exact .site hs
  | submit c form =>
    simp only [webStep] at h
    split at h <;> cases h
    exact .submit rfl
  | arrive c n q now =>
    obtain ⟨sub, hsub, h⟩ := Option.bind_eq_some_iff.mp h
    split at h
    · simp only [arrive] at h
      split at h
      · cases h
        refine .quiet hsub rfl (fun p hp => ?_)
        exact (reached_setAttempt hp).resolve_left (fun hp => by cases hp)
      · rename_i body hbody
        obtain ⟨⟨s, es'⟩, hs, he⟩ := Option.map_eq_some_iff.mp h
        cases he
        exact .arrive hsub hbody hs
    · cases h
  | lose c n =>
    obtain ⟨sub, hsub, h⟩ := Option.bind_eq_some_iff.mp h
    split at h <;> cases h
    refine .quiet hsub rfl (fun p hp => ?_)
    exact (reached_setAttempt hp).resolve_left (fun hp => by cases hp)
  | fetchFails c =>
    obtain ⟨sub, hsub, h⟩ := Option.bind_eq_some_iff.mp h
    split at h <;> cases h
    refine .quiet hsub (body_fetchFailed sub) (fun p hp => ?_)
    rwa [reached_fetchFailed] at hp
  | respond c =>
    obtain ⟨sub, hsub, h⟩ := Option.bind_eq_some_iff.mp h
    split at h
    · cases h
    · obtain ⟨result, -, he⟩ := Option.map_eq_some_iff.mp h
      cases he
      exact .quiet hsub rfl (fun p hp => hp)

/-- **A run of the web is a run of the site.** -/
theorem site_run {ok : Web → WebAction → Bool} (hr : Lts.Run (web cfg product) ok h w) :
    Lts.Run (site cfg) anyStep h w.site := by
  refine hr.invariant (I := fun h w => Lts.Run (site cfg) anyStep h w.site) ?_ ?_
  · intro w hi
    exact Lts.Run.init (S := site cfg) hi.site
  · intro h w a w' es _ hrun _ hstep
    cases web_step hstep with
    | site hs => exact hrun.snoc rfl hs
    | @arrive c n q now sub body s es _ _ hs =>
      show Lts.Run (site cfg) anyStep (es ++ h) s
      exact hrun.snoc (a := .post q body now) rfl hs
    | submit | quiet => exact hrun

/-- Every submission is as it should be. -/
def AllSent (w : Web) : Prop := ∀ c sub, w.submissions c = some sub → Sent w.site sub

theorem AllSent.set (hall : AllSent w) (hsent : Sent w.site sub') :
    AllSent (w.setSubmission c sub') := by
  intro d sub hd
  rw [submissions_setSubmission] at hd
  split at hd
  · cases hd
    exact hsent
  · exact hall d sub hd

theorem AllSent.site (hall : AllSent w) (hs : Consistent w.site) {a : SiteAction}
    (hstep : siteStep cfg w.site a = some (t, es)) : AllSent { w with site := t } :=
  fun d sub hd => (hall d sub hd).step hs hstep

theorem allSent_step {a : WebAction} (hall : AllSent w) (hs : Consistent w.site)
    (hok : resendsEnded w a = true) (hstep : webStep cfg product w a = some (w', es)) :
    AllSent w' := by
  cases web_step hstep with
  | site hs' => exact hall.site hs hs'
  | submit hnone => exact hall.set ⟨by simp [hnone], by simp [hnone]⟩
  | quiet hsub hbody hold => exact hall.set ((hall _ _ hsub).of_subset hbody hold)
  | @arrive c n q now sub body s es hsub hbody hpost =>
    refine AllSent.set (hall.site hs hpost) ?_
    refine (hall c sub hsub).cons hs hpost hbody rfl (fun p hp => ?_) (fun hkey p hp => ?_)
    · exact (reached_setAttempt hp).imp (fun h => (Option.some.inj h).symm) id
    · simp only [resendsEnded, hsub, Option.all_some, hkey, Option.isSome_none, Bool.false_or,
        List.all_eq_true] at hok
      exact hok p hp

theorem run_allSent (hr : Lts.Run (web cfg product) resendsEnded h w) : AllSent w := by
  refine hr.invariant (I := fun _ w => AllSent w) ?_ ?_
  · intro w hi c sub hsub
    rw [hi.submissions] at hsub
    cases hsub
  · intro h w a w' es hr hall hok hstep
    exact allSent_step hall (run_consistent (site_run hr)) hok hstep

/-! ### The rows of a submission -/

theorem Consistent.committed_of_row (hs : Consistent s) {r : Job} (hd : s.drawnBy J = some q)
    (hrow : s.core.row J = some r) :
    ∃ rq, s.requests q = some rq ∧ rq.pc.committed? = some J := by
  obtain ⟨p, rq, hp, hJ⟩ := hs.row J r hrow
  cases ((hs.request p rq hp).committed hJ).drawn.symm.trans hd
  exact ⟨rq, hp, hJ⟩

theorem Site.not_barren (hq : s.requests q = some rq) (hJ : rq.pc.committed? = some J) :
    s.barren q ≠ true := by
  rw [barren, hq, Option.any_some]
  cases hpc : rq.pc with
  | responding | created | lost => exact Bool.false_ne_true
  | _ =>
    rw [hpc] at hJ
    cases hJ

theorem key_of_committed (hs : Consistent s) (hq : s.requests q = some rq)
    (hJ : rq.pc.committed? = some J) (hbody : sub.body.jobBody? = some rq.body) :
    rq.body.key = sub.body.idempotencyKey := by
  rw [JobBody.key_of_valid ((hs.request q rq hq).committed hJ).valid]
  rw [FormBody.jobBody?] at hbody
  split at hbody
  · rw [← Option.some.inj hbody]
  · cases hbody

/-- **One submission inserts one row**, if a request without a key is sent again
only after the earlier ones have ended. -/
theorem one_job (hr : Lts.Run (web cfg product) resendsEnded h w) : OneJob w := by
  have hs := run_consistent (site_run hr)
  rintro c J J' ⟨sub, q, r, hsub, hq, hd, hrow⟩ ⟨sub', q', r', hsub', hq', hd', hrow'⟩
  cases hsub.symm.trans hsub'
  have hsent := run_allSent hr c sub hsub
  obtain ⟨rq, hrq, hJ⟩ := hs.committed_of_row hd hrow
  obtain ⟨rq', hrq', hJ'⟩ := hs.committed_of_row hd' hrow'
  have hsame : q = q' := by
    cases hkey : sub.body.idempotencyKey with
    | some key =>
      have hbody : ∀ p ∈ sub.reached, ∀ rp J, w.site.requests p = some rp →
          rp.pc.committed? = some J → rp.body.key = some key := by
        intro p hp rp J hrp hJ
        obtain ⟨rp', hrp', hb⟩ := hsent.body p hp
        cases hrp.symm.trans hrp'
        exact (key_of_committed hs hrp hJ hb).trans hkey
      exact hs.commits_once hrq' hrq (hbody q' hq' rq' J' hrq' hJ') (hbody q hq rq J hrq hJ) hJ' hJ
    | none =>
      rcases hsent.alone hkey q hq q' hq' with hqq | hb | hb
      · exact hqq
      · exact absurd hb (Site.not_barren hrq hJ)
      · exact absurd hb (Site.not_barren hrq' hJ')
  subst hsame
  cases hrq.symm.trans hrq'
  exact Option.some.inj (hJ.symm.trans hJ')

/-- A text message for now. -/
def smsForm (key : String) : Form :=
  { recipient := "a", channel := .sms, payload := .ok (some "x"), idempotencyKey := key }

/-- Whether the submission `c` has inserted the row `J`. -/
def Web.inserted (w : Web) (c : SubmissionId) (J : JobId) : Bool :=
  (w.submissions c).any (fun sub => sub.reached.any (fun q => w.site.drawnBy J = some q)) &&
    (w.site.core.row J).isSome

theorem Web.inserts_of_inserted (hi : w.inserted c J = true) : w.Inserts c J := by
  simp only [inserted, Bool.and_eq_true, Option.any_eq_true, List.any_eq_true,
    decide_eq_true_eq] at hi
  obtain ⟨⟨sub, hsub, q, hq, hd⟩, hr⟩ := hi
  obtain ⟨r, hr⟩ := Option.isSome_iff_exists.mp hr
  exact ⟨sub, q, r, hsub, hq, hd, hr⟩

/-- Submission 1 has a key, and its response is lost after the commit: it is sent
again and told of the job.  Submission 2 has none, and its request is lost on
the way: it is sent again and answered. -/
theorem one_job_resent : ∃ h w, Lts.Run (web {} (· * ·)) resendsEnded h w ∧
    (w.submissions 1).bind Submission.result = some (.duplicate (some 7)) ∧ w.Inserts 1 7 ∧
    (w.submissions 2).bind Submission.result = some (.scheduled 8) ∧ w.Inserts 2 8 ∧
    OneJob w := by
  obtain ⟨w, h, hr, hf⟩ := Lts.run_of_replay (web {} (· * ·)) resendsEnded
    [.submit 1 (smsForm "order"), .submit 2 (smsForm ""), .arrive 1 0 5 0, .site (.next 5 7),
      .site (.next 5 0), .site (.next 5 0), .fetchFails 1, .arrive 1 1 6 0, .site (.next 6 9),
      .site (.next 6 0), .site (.next 6 0), .site (.next 6 0), .respond 1, .lose 2 0,
      .fetchFails 2, .arrive 2 1 3 0, .site (.next 3 8), .site (.next 3 0), .site (.next 3 0),
      .respond 2]
    (fun p => (((p.1.submissions 1).bind Submission.result, p.1.inserted 1 7),
      (p.1.submissions 2).bind Submission.result, p.1.inserted 2 8))
    ((some (.duplicate (some 7)), true), some (.scheduled 8), true)
    webInitial_empty (by decide +kernel)
  simp only [Prod.mk.injEq] at hf
  obtain ⟨⟨h₁, hi₁⟩, h₂, hi₂⟩ := hf
  exact ⟨h, w, hr, h₁, Web.inserts_of_inserted hi₁, h₂, Web.inserts_of_inserted hi₂, one_job hr⟩

/-- One submission, one job. -/
def AlwaysOneJob (cfg : Settings) (product : Rat → Rat → Rat) : Prop :=
  ∀ h w, Lts.Run (web cfg product) anyWebStep h w → OneJob w

/-- A submission without a key, whose response is lost after the commit: it is
sent again, and inserts a second job. -/
theorem not_always_one_job : ¬ AlwaysOneJob {} (· * ·) := by
  intro hall
  obtain ⟨w, h, hr, hf⟩ := Lts.run_of_replay (web {} (· * ·)) anyWebStep
    [.submit 1 (smsForm ""), .arrive 1 0 5 0, .site (.next 5 7), .site (.next 5 0),
      .fetchFails 1, .arrive 1 1 6 0, .site (.next 6 8), .site (.next 6 0)]
    (fun p => (p.1.inserted 1 7, p.1.inserted 1 8)) (true, true) webInitial_empty
    (by decide +kernel)
  obtain ⟨h₇, h₈⟩ := Prod.mk.inj hf
  exact absurd (hall h w hr 1 7 8 (Web.inserts_of_inserted h₇) (Web.inserts_of_inserted h₈))
    (by decide)

end NotifyQueue
