import NotifyQueue.Safety.Retries

/-!
# What the panel reports

A response that is lost makes `request` send the retry again, and the second
request finds the job replayed: the panel may say that it could not retry a job
that it has requeued.  The other way round it is right.  Every job it reports as
requeued has been replayed since the button was pressed, by a request of that
call (`ClicksSound`), and what `retryAll` counts are different jobs.
-/

namespace NotifyQueue

open KeyedTable

variable {cfg : Settings} {p p' p₀ : Panel} {a : PanelAction} {es h k : List Event}
  {J : JobId} {n : Nat} {c : ClickId} {click click' : Click} {ids : List JobId}

/-! ### One call of `retryJob` -/

/-- What a step does to a call that is there already. -/
structure ClickStep (p p' : Panel) (click click' : Click) : Prop where
  job : click'.job = click.job
  keeps : ∀ n, .arrived n ∈ click.attempts → .arrived n ∈ click'.attempts
  sends : ∀ n, .arrived n ∈ click'.attempts → .arrived n ∈ click.attempts ∨
    n = p.requests.length ∧ p'.requests[n]? = some ⟨click.job, .updating⟩
  returns : click'.result = some (.returned true) → click.result = some (.returned true) ∨
    ∃ n rq, .arrived n ∈ click.attempts ∧ p.requests[n]? = some rq ∧ rq.pc = .requeued

theorem ClickStep.refl (p p' : Panel) (click : Click) : ClickStep p p' click click :=
  ⟨rfl, fun _ hn => hn, fun _ hn => Or.inl hn, fun hr => Or.inl hr⟩

/-- An answer with the status 200 is that of a request that has replayed the job. -/
theorem requeued_of_answer? (h : p.answer? click = some true) :
    ∃ n rq, .arrived n ∈ click.attempts ∧ p.requests[n]? = some rq ∧ rq.pc = .requeued := by
  rw [Panel.answer?] at h
  split at h
  · rename_i n hn
    obtain ⟨rq, hrq, h⟩ := Option.bind_eq_some_iff.mp h
    obtain ⟨⟨status, detail⟩, ha, h⟩ := Option.map_eq_some_iff.mp h
    refine ⟨n, rq, List.mem_of_getLast? hn, hrq, ?_⟩
    cases hpc : rq.pc with
    | requeued => rfl
    | notFound | notDeadLettered | failed | lost =>
      rw [hpc] at ha
      cases ha
      cases h
    | updating | responding | checking =>
      rw [hpc] at ha
      cases ha
  · cases h

theorem mem_setAttempt {i : Nat} {x : RetryAttempt}
    (hn : .arrived n ∈ (click.setAttempt i x).attempts) :
    x = .arrived n ∨ .arrived n ∈ click.attempts :=
  (List.mem_or_eq_of_mem_set hn).symm.imp Eq.symm id

theorem mem_setAttempt_of_mem {i : Nat} (x : RetryAttempt)
    (hi : click.attempts[i]? = some .sending) (hn : .arrived n ∈ click.attempts) :
    .arrived n ∈ (click.setAttempt i x).attempts := by
  obtain ⟨j, hj⟩ := List.mem_iff_getElem?.mp hn
  have hij : i ≠ j := by
    rintro rfl
    cases hi.symm.trans hj
  refine List.mem_iff_getElem?.mpr ⟨j, ?_⟩
  show (click.attempts.set i x)[j]? = _
  rw [List.getElem?_set_ne hij, hj]

theorem clickStep_of_turn (h : ClickTurn p click click') : ClickStep p p' click click' := by
  cases h with
  | lose hi =>
    refine ⟨rfl, fun n hn => mem_setAttempt_of_mem _ hi hn, fun n hn => Or.inl ?_,
      fun hr => Or.inl hr⟩
    exact (mem_setAttempt hn).resolve_left (fun hx => by cases hx)
  | resend =>
    refine ⟨rfl, fun n hn => List.mem_append_left _ hn, fun n hn => Or.inl ?_,
      fun hr => Or.inl hr⟩
    rcases List.mem_append.mp hn with hn | hn
    · exact hn
    · cases List.mem_singleton.mp hn
  | throw => exact ⟨rfl, fun _ hn => hn, fun _ hn => Or.inl hn, fun hr => by cases hr⟩
  | respond hok =>
    refine ⟨rfl, fun _ hn => hn, fun _ hn => Or.inl hn, fun hr => Or.inr ?_⟩
    cases hr
    exact requeued_of_answer? hok

theorem clickStep_of_arrive {i : Nat} (hi : click.attempts[i]? = some .sending)
    (hnew : p'.requests[p.requests.length]? = some ⟨click.job, .updating⟩) :
    ClickStep p p' click (click.setAttempt i (.arrived p.requests.length)) where
  job := rfl
  keeps n hn := mem_setAttempt_of_mem _ hi hn
  sends n hn := by
    rcases mem_setAttempt hn with hx | hn
    · cases hx
      exact Or.inr ⟨rfl, hnew⟩
    · exact Or.inl hn
  returns hr := Or.inl hr

/-- **A step and a call of `retryJob`**: a new one, or one that was there. -/
theorem click_step (h : panelStep cfg p a = some (p', es)) (hc : p'.clicks[c]? = some click') :
    (p.clicks.length ≤ c ∧ ∃ J, click' = .start J) ∨
      ∃ click, p.clicks[c]? = some click ∧ ClickStep p p' click click' := by
  have hset : ∀ {d : ClickId} {x y : Click}, p.clicks[d]? = some x → ClickStep p p' x y →
      (p.clicks.set d y)[c]? = some click' →
      ∃ click, p.clicks[c]? = some click ∧ ClickStep p p' click click' := by
    intro d x y hx hxy hget
    by_cases hdc : d = c
    · subst hdc
      obtain ⟨hlt, -⟩ := List.getElem?_eq_some_iff.mp hx
      rw [List.getElem?_set_self hlt] at hget
      cases hget
      exact ⟨x, hx, hxy⟩
    · rw [List.getElem?_set_ne hdc] at hget
      exact ⟨click', hget, .refl p p' click'⟩
  cases panel_step h with
  | core | request | replay | turn => exact Or.inr ⟨click', hc, .refl _ _ _⟩
  | call ids =>
    by_cases hlt : c < p.clicks.length
    · rw [Panel.call, List.getElem?_append_left hlt] at hc
      exact Or.inr ⟨click', hc, .refl _ _ _⟩
    · have hle := Nat.le_of_not_lt hlt
      rw [Panel.call, List.getElem?_append_right hle, List.getElem?_map] at hc
      obtain ⟨J, -, rfl⟩ := Option.map_eq_some_iff.mp hc
      exact Or.inl ⟨hle, J, rfl⟩
  | @arrive d i x hd hi =>
    exact Or.inr (hset hd (clickStep_of_arrive hi List.getElem?_concat_length) hc)
  | click hd hturn => exact Or.inr (hset hd (clickStep_of_turn hturn) hc)

theorem clicks_length_le (h : panelStep cfg p a = some (p', es)) :
    p.clicks.length ≤ p'.clicks.length := by
  cases panel_step h with
  | core | request | replay | turn => exact Nat.le_refl _
  | arrive | click => exact Nat.le_of_eq List.length_set.symm
  | call ids =>
    rw [Panel.call, List.length_append]
    exact Nat.le_add_right _ _

theorem job_step (h : panelStep cfg p a = some (p', es)) (hc : p.clicks[c]? = some click) :
    ∃ click', p'.clicks[c]? = some click' ∧ click'.job = click.job := by
  obtain ⟨hlt, -⟩ := List.getElem?_eq_some_iff.mp hc
  have hlt' := Nat.lt_of_lt_of_le hlt (clicks_length_le h)
  refine ⟨_, List.getElem?_eq_getElem hlt', ?_⟩
  rcases click_step h (List.getElem?_eq_getElem hlt') with ⟨hle, -⟩ | ⟨x, hx, hcs⟩
  · exact absurd hlt (Nat.not_lt.mpr hle)
  · cases hc.symm.trans hx
    exact hcs.job

/-- What a call has sent is for its job, and what it has returned is true. -/
structure ClicksSound (p : Panel) : Prop where
  sent : ∀ (c : ClickId) (click : Click) (n : Nat), p.clicks[c]? = some click →
    .arrived n ∈ click.attempts → ∃ pc, p.requests[n]? = some ⟨click.job, pc⟩
  returned : ∀ (c : ClickId) (click : Click), p.clicks[c]? = some click →
    click.result = some (.returned true) →
    ∃ n, .arrived n ∈ click.attempts ∧ p.requests[n]? = some ⟨click.job, .requeued⟩

theorem requeued_step (h : panelStep cfg p a = some (p', es))
    (hn : p.requests[n]? = some ⟨J, .requeued⟩) : p'.requests[n]? = some ⟨J, .requeued⟩ := by
  obtain ⟨pc', hn', hpc⟩ := request_step h hn
  rcases hpc with rfl | hturn | ⟨hpc, -⟩
  · exact hn'
  · cases hturn with
    | fail hpc => rcases hpc with hpc | hpc <;> cases hpc
  · cases hpc

theorem clicksSound_step (hs : ClicksSound p) (h : panelStep cfg p a = some (p', es)) :
    ClicksSound p' where
  sent c click' n hc hn := by
    rcases click_step h hc with ⟨-, J, rfl⟩ | ⟨click, hold, hcs⟩
    · cases List.mem_singleton.mp hn
    · rw [hcs.job]
      rcases hcs.sends n hn with hn | ⟨-, hn⟩
      · obtain ⟨pc, hpc⟩ := hs.sent c click n hold hn
        obtain ⟨pc', hpc', -⟩ := request_step h hpc
        exact ⟨pc', hpc'⟩
      · exact ⟨_, hn⟩
  returned c click' hc hr := by
    rcases click_step h hc with ⟨-, J, rfl⟩ | ⟨click, hold, hcs⟩
    · cases hr
    · rw [hcs.job]
      rcases hcs.returns hr with hr | ⟨n, ⟨J, pc⟩, hn, hrq, rfl⟩
      · obtain ⟨n, hn, hrq⟩ := hs.returned c click hold hr
        exact ⟨n, hcs.keeps n hn, requeued_step h hrq⟩
      · obtain ⟨pc, hpc⟩ := hs.sent c click n hold hn
        cases hrq.symm.trans hpc
        exact ⟨n, hcs.keeps n hn, requeued_step h hrq⟩

theorem run_clicksSound (hr : Lts.Run (panel cfg) anyPanelStep h p) : ClicksSound p := by
  refine hr.invariant (I := fun _ p => ClicksSound p) ?_ ?_
  · intro p hi
    refine ⟨fun c click n hc => ?_, fun c click hc => ?_⟩ <;> rw [hi.clicks] at hc <;> cases hc
  · intro h p a p' es _ hs _ hstep
    exact clicksSound_step hs hstep

/-! ### Since the button was pressed -/

/-- What has become of the calls on `ids`, made at `p₀`, with the events `k`. -/
structure CalledSince (p₀ : Panel) (ids : List JobId) (k : List Event) (p : Panel) : Prop where
  length : p₀.requests.length ≤ p.requests.length
  /-- A request that has arrived since and has replayed its job has done so since. -/
  replayed : ∀ (n : Nat) (J : JobId) (pc : RetryPc), p₀.requests.length ≤ n →
    p.requests[n]? = some ⟨J, pc⟩ → pc.replayed = true → .replayed J ∈ k
  called : ∀ (i : Nat) (J : JobId), ids[i]? = some J →
    ∃ click, p.clicks[p₀.clicks.length + i]? = some click ∧ click.job = J
  /-- The requests of these calls have arrived since. -/
  fresh : ∀ (c : ClickId) (click : Click) (n : Nat), p₀.clicks.length ≤ c →
    p.clicks[c]? = some click → .arrived n ∈ click.attempts → p₀.requests.length ≤ n

theorem calledSince_start (p₀ : Panel) (ids : List JobId) :
    CalledSince p₀ ids [] (p₀.call ids) where
  length := Nat.le_refl _
  replayed n J pc hle hn := by
    obtain ⟨hlt, -⟩ := List.getElem?_eq_some_iff.mp hn
    exact absurd hlt (Nat.not_lt.mpr hle)
  called i J hi := by
    refine ⟨.start J, ?_, rfl⟩
    rw [Panel.call, List.getElem?_append_right (Nat.le_add_right _ _), Nat.add_sub_cancel_left,
      List.getElem?_map, hi]
    rfl
  fresh c click n hle hc hn := by
    rw [Panel.call, List.getElem?_append_right hle, List.getElem?_map] at hc
    obtain ⟨J, -, rfl⟩ := Option.map_eq_some_iff.mp hc
    cases List.mem_singleton.mp hn

theorem requests_length_le (h : panelStep cfg p a = some (p', es)) :
    p.requests.length ≤ p'.requests.length := by
  cases panel_step h with
  | core | call | click => exact Nat.le_refl _
  | replay | turn => exact Nat.le_of_eq List.length_set.symm
  | @request id =>
    rw [Panel.receive, List.length_append]
    exact Nat.le_add_right _ _
  | @arrive c i click =>
    show p.requests.length ≤ (p.requests ++ [_]).length
    rw [List.length_append]
    exact Nat.le_add_right _ _

theorem calledSince_step (hcs : CalledSince p₀ ids k p)
    (h : panelStep cfg p a = some (p', es)) : CalledSince p₀ ids (es ++ k) p' where
  length := Nat.le_trans hcs.length (requests_length_le h)
  replayed n J pc' hle hn hrep := by
    cases hold : p.requests[n]? with
    | none =>
      obtain rfl : pc' = .updating := request_new h hold hn
      cases hrep
    | some rq =>
      obtain ⟨J', pc⟩ := rq
      obtain ⟨pc₁, hn₁, hpc⟩ := request_step h hold
      cases hn.symm.trans hn₁
      rcases hpc with rfl | hturn | ⟨-, -, rfl⟩
      · exact List.mem_append_right _ (hcs.replayed n J _ hle hold hrep)
      · rw [hturn.replayed_eq] at hrep
        exact List.mem_append_right _ (hcs.replayed n J _ hle hold hrep)
      · exact List.mem_append_left _ List.mem_cons_self
  called i J hi := by
    obtain ⟨click, hc, hjob⟩ := hcs.called i J hi
    obtain ⟨click', hc', hjob'⟩ := job_step h hc
    exact ⟨click', hc', hjob'.trans hjob⟩
  fresh c click' n hle hc hn := by
    rcases click_step h hc with ⟨-, J, rfl⟩ | ⟨click, hold, hstep⟩
    · cases List.mem_singleton.mp hn
    · rcases hstep.sends n hn with hn | ⟨rfl, -⟩
      · exact hcs.fresh c click n hle hold hn
      · exact hcs.length

theorem path_calledSince (hp : Lts.Path (panel cfg) anyPanelStep (p₀.call ids) k p) :
    CalledSince p₀ ids k p :=
  hp.invariant (I := fun k p => CalledSince p₀ ids k p) (calledSince_start p₀ ids)
    (fun _ _ _ _ _ _ hcs _ hstep => calledSince_step hcs hstep)

/-- A call that has returned `true` has had its job replayed since. -/
theorem CalledSince.requeued (hcs : CalledSince p₀ ids k p) (hs : ClicksSound p) {i : Nat}
    (hi : ids[i]? = some J) (hr : p.result? (p₀.clicks.length + i) = some (.returned true)) :
    .replayed J ∈ k := by
  obtain ⟨click, hc, rfl⟩ := hcs.called i J hi
  rw [Panel.result?, hc] at hr
  obtain ⟨n, hn, hrq⟩ := hs.returned _ click hc hr
  exact hcs.replayed n _ _ (hcs.fresh _ click n (Nat.le_add_right _ _) hc hn) hrq rfl

theorem countP_range'_le {α : Type*} {f : Nat → Bool} {g : α → Bool} (l : List α) (m : Nat)
    (h : ∀ i x, l[i]? = some x → f (m + i) = true → g x = true) :
    (List.range' m l.length).countP f ≤ l.countP g := by
  induction l generalizing m with
  | nil => exact Nat.le_refl _
  | cons x l ih =>
    have hl := ih (m + 1) (fun i y hy hf => by
      refine h (i + 1) y hy ?_
      rwa [Nat.add_comm i 1, ← Nat.add_assoc])
    have hx : f m = true → g x = true := h 0 x rfl
    rw [List.length_cons, List.range'_succ, List.countP_cons, List.countP_cons]
    by_cases hf : f m = true
    · rw [if_pos hf, if_pos (hx hf)]
      omega
    · rw [if_neg hf]
      omega

/-! ### The toasts -/

theorem call_of_click (h : panelStep cfg p (.click J) = some (p', es)) : p' = p.call [J] := by
  cases h
  rfl

theorem call_of_clickAll (h : panelStep cfg p (.clickAll ids) = some (p', es)) :
    recent p.core.db (some .deadLettered) retryAllLimit ids = true ∧ p' = p.call ids := by
  simp only [panelStep] at h
  split at h
  · rename_i hlist
    cases h
    exact ⟨hlist, rfl⟩
  · cases h

/-- What the panel tells of the buttons pressed at `p₀` is so. -/
structure ReportsTrue (cfg : Settings) (p₀ : Panel) : Prop where
  /-- A job reported as requeued has been replayed since. -/
  requeued : ∀ J p₁ es k p, panelStep cfg p₀ (.click J) = some (p₁, es) →
    Lts.Path (panel cfg) anyPanelStep p₁ k p →
    p.result? p₀.clicks.length = some (.returned true) → .replayed J ∈ k
  /-- So have as many different jobs of the list as `retryAll` counts, at least. -/
  requeuedAll : ∀ ids p₁ es k p ok n, panelStep cfg p₀ (.clickAll ids) = some (p₁, es) →
    Lts.Path (panel cfg) anyPanelStep p₁ k p →
    p.toast? (List.range' p₀.clicks.length ids.length) = some (ok, n) →
    ids.Nodup ∧ n = ids.length ∧ ok ≤ ids.countP (fun J => decide (.replayed J ∈ k))
  /-- The list has as many jobs as `metrics` counts, up to its limit, and then it has all. -/
  listed : ∀ ids p₁ es, panelStep cfg p₀ (.clickAll ids) = some (p₁, es) →
    ids.length = min retryAllLimit (metrics p₀.core.db .deadLettered) ∧
    (metrics p₀.core.db .deadLettered ≤ retryAllLimit → ∀ J, p₀.core.Dead J → J ∈ ids)

/-- **What the panel reports is so**, whatever happens to its requests. -/
theorem reports_true (hr : Lts.Run (panel cfg) anyPanelStep h p₀) : ReportsTrue cfg p₀ where
  requeued J p₁ es k p hclick hp hres := by
    have hr₁ : Lts.Run (panel cfg) anyPanelStep (es ++ h) p₁ :=
      hr.snoc (a := .click J) rfl hclick
    have hsound := run_clicksSound (hr₁.path hp)
    obtain rfl := call_of_click hclick
    exact (path_calledSince hp).requeued hsound (i := 0) rfl hres
  requeuedAll ids p₁ es k p ok n hclick hp ht := by
    have hr₁ : Lts.Run (panel cfg) anyPanelStep (es ++ h) p₁ :=
      hr.snoc (a := .clickAll ids) rfl hclick
    have hsound := run_clicksSound (hr₁.path hp)
    obtain ⟨hlist, rfl⟩ := call_of_clickAll hclick
    rw [Panel.toast?] at ht
    split at ht
    · cases ht
      refine ⟨Table.picks_nodup (recent_picks hlist), List.length_range', ?_⟩
      refine countP_range'_le ids _ (fun i J hi hres => ?_)
      exact decide_eq_true ((path_calledSince hp).requeued hsound hi (of_decide_eq_true hres))
    · cases ht
  listed ids p₁ es hclick := by
    obtain ⟨hlist, -⟩ := call_of_clickAll hclick
    rw [metrics_eq]
    refine ⟨length_recent hlist, fun hle J hdead => ?_⟩
    obtain ⟨r, hrow, hd⟩ := hdead
    rw [Db.countOf, List.countP_eq_length_filter] at hle
    have hmem := Table.mem_of_picks (recent_picks hlist) hle
      (List.mem_filter.mpr ⟨Table.mem_of_find? hrow, listable_iff.mpr hd⟩)
    rwa [Table.key_of_find? hrow] at hmem

/-- Job `7` has one attempt, which fails. -/
def failedJob : List PanelAction :=
  (Action.createJob 7 plainJob :: promotion 0 7 ++ claim 1 ++
    [work 1, work 1, work 1, work 1]).map .core

/-- The only retry of `retryAll` is lost on its way, sent again and answered. -/
theorem reports_true_resent : ∃ p₀ p₁ es k p,
    panelStep { maxAttempts := 1 } p₀ (.clickAll [7]) = some (p₁, es) ∧
    Lts.Path (panel { maxAttempts := 1 }) anyPanelStep p₁ k p ∧
    p.toast? [0] = some (1, 1) ∧ ReportsTrue { maxAttempts := 1 } p₀ := by
  obtain ⟨p₀, h, hr, hf⟩ := Lts.run_of_replay (panel { maxAttempts := 1 }) anyPanelStep failedJob
    (fun x => (panelStep { maxAttempts := 1 } x.1 (.clickAll [7])).map (fun y =>
      ((panel { maxAttempts := 1 }).exec anyPanelStep y.1
        [.lose 0 0, .fetchFails 0, .arrive 0 1, .next 0, .next 0, .respond 0]).map
          (fun z => z.1.toast? [0])))
    (some (some (some (1, 1)))) panelInitial_empty (by decide +kernel)
  obtain ⟨⟨p₁, es⟩, hclick, hf⟩ := Option.map_eq_some_iff.mp hf
  obtain ⟨⟨p, k⟩, hexec, ht⟩ := Option.map_eq_some_iff.mp hf
  exact ⟨p₀, p₁, es, k, p, hclick, Lts.path_of_exec _ hexec, ht, reports_true hr⟩

end NotifyQueue
