import NotifyQueue.Model.Simulation
import NotifyQueue.Safety.Counts
import NotifyQueue.Safety.Submission

/-!
# The books of the simulation

Every job the simulation has submitted is a row, and every row is counted under
one status.  So when `queued` and `claimed` are zero, the jobs that are neither
sent nor dead-lettered are pending, and the list of the same poll shows them.
Two things come between: a job that is promoted after the metrics are read and
before the list is, and a list that is cut off at its limit.  In every run
without either the books balance (`books_balance`); a promotion at that moment
is enough for a false alarm (`not_always_balanced`).
-/

namespace NotifyQueue

open KeyedTable

/-- Between the two requests of a poll no job leaves `pending`, and the list has
room for all pending jobs. -/
def calmPolls (cfg : Settings) (x : SimState) : SimAction → Bool
  | .site a =>
    match x.pc with
    | .splitting _ _ =>
      (siteStep cfg x.site a).all (fun (_, es) => es.all (fun e => !e.exits .pending))
    | _ => true
  | .split _ _ _ => decide (x.site.core.db.countOf .pending ≤ Simulation.pendingLimit)
  | _ => true

/-- How many of the requests are to insert a job. -/
def inserts (todo : List Planned) : Nat := todo.countP (fun r => decide (r.expected = 201))

/-- All the jobs that some counts are of. -/
def Counts.total (counts : Counts) : Nat := (jobStatuses.map counts).sum

/-- The request has committed its job. -/
def Site.committed (s : Site) (q : RequestId) : Bool :=
  (s.requests q).any (fun rq => rq.pc.committed?.isSome)

/-- The statuses are checked after the last of the requests. -/
def Closed (todo : List Planned) : Prop := ∀ r ∈ todo.getLast?, r.checked = true

/-- What holds after the events `h`, by the place of the simulation. -/
inductive Booked (sim : Simulation) (h : List Event) (s : Site) : SimPc → Prop
  | measuring : Booked sim h s .measuring
  | submitting {baseline : Counts} {todo : List Planned} {ok : Bool} : Closed todo →
      (ok = true → baseline.total + sim.total ≤ h.countP Event.creates + inserts todo) →
      Booked sim h s (.submitting baseline todo ok)
  | answering {baseline : Counts} {q : RequestId} {sent : Planned} {todo : List Planned}
      {ok : Bool} : Closed (sent :: todo) →
      (ok = true → baseline.total + sim.total + (if s.committed q then 1 else 0) ≤
        h.countP Event.creates + inserts todo + 1) →
      (ok = true → sent.expected ≠ 201 → baseline.total + sim.total ≤
        h.countP Event.creates + inserts todo) →
      Booked sim h s (.answering baseline q sent todo ok)
  | watching {baseline : Counts} : baseline.total + sim.total ≤ h.countP Event.creates →
      Booked sim h s (.watching baseline)
  | splitting {baseline metrics : Counts} : baseline.total + sim.total ≤ metrics.total →
      metrics.total ≤ h.countP Event.creates → metrics .failed = 0 →
      metrics .pending ≤ s.core.db.countOf .pending →
      Booked sim h s (.splitting baseline metrics)
  | balanced {baseline metrics : Counts} {deferred : Nat} :
      Booked sim h s (.balanced baseline metrics deferred)
  | nothingSubmitted : Booked sim h s .nothingSubmitted
  | exited : Booked sim h s .exited

variable {cfg : Settings} {sim : Simulation} {x x' : SimState} {s t : Site} {a : SimAction}
  {es h : List Event} {q : RequestId} {baseline counts : Counts} {sent : Planned}
  {todo : List Planned} {ok : Bool}

/-! ### Runs of the simulation -/

theorem sim_site (hstep : simStep cfg sim x a = some (x', es)) :
    x'.site = x.site ∧ es = [] ∨ ∃ b, siteStep cfg x.site b = some (x'.site, es) := by
  cases a with
  | site b =>
    obtain ⟨⟨site, es'⟩, hs, he⟩ := Option.map_eq_some_iff.mp hstep
    cases he
    exact Or.inr ⟨b, hs⟩
  | measure =>
    simp only [simStep] at hstep
    split at hstep <;> cases hstep <;> exact Or.inl ⟨rfl, rfl⟩
  | submit q now =>
    simp only [simStep] at hstep
    split at hstep
    · obtain ⟨⟨site, es'⟩, hs, he⟩ := Option.map_eq_some_iff.mp hstep
      cases he
      exact Or.inr ⟨_, hs⟩
    · cases hstep
  | respond =>
    simp only [simStep] at hstep
    split at hstep
    · obtain ⟨rq, -, hstep⟩ := Option.bind_eq_some_iff.mp hstep
      obtain ⟨status, -, he⟩ := Option.map_eq_some_iff.mp hstep
      cases he
      exact Or.inl ⟨rfl, rfl⟩
    · cases hstep
  | split ids now late =>
    simp only [simStep] at hstep
    split at hstep
    · split at hstep <;> cases hstep
      exact Or.inl ⟨rfl, rfl⟩
    · cases hstep
  | raise =>
    simp only [simStep] at hstep
    split at hstep <;> cases hstep
    exact Or.inl ⟨rfl, rfl⟩

/-- **A run of the simulation is a run of the system.** -/
theorem sim_run {guard : SimState → SimAction → Bool}
    (hr : Lts.Run (simulation cfg sim) guard h x) :
    Lts.Run (system cfg) always h x.site.core := by
  have hsite : Lts.Run (site cfg) anyStep h x.site := by
    refine hr.invariant (I := fun h x => Lts.Run (site cfg) anyStep h x.site) ?_ ?_
    · intro x hi
      exact Lts.Run.init (S := site cfg) hi.site
    · intro h x a x' es _ hrun _ hstep
      rcases sim_site hstep with ⟨hs, rfl⟩ | ⟨b, hb⟩
      · rwa [hs]
      · exact hrun.snoc rfl hb
  exact core_run hsite

/-! ### Submitting -/

theorem committed_update {p : RequestId} {rq : Request}
    (ht : t.requests = Function.update s.requests p (some rq)) (q : RequestId) :
    t.committed q = if q = p then rq.pc.committed?.isSome else s.committed q := by
  rw [Site.committed, ht]
  split
  · rename_i hqp
    subst hqp
    rw [Function.update_self, Option.any_some]
  · rename_i hqp
    rw [Function.update_of_ne hqp]
    rfl

theorem committed_step {b : SiteAction} (hstep : siteStep cfg s b = some (t, es))
    (q : RequestId) : (if t.committed q then 1 else 0) ≤
      (if s.committed q then 1 else 0) + es.countP Event.creates := by
  have hsame : t.committed q = s.committed q → (if t.committed q then 1 else 0) ≤
      (if s.committed q then 1 else 0) + es.countP Event.creates := by
    intro h
    rw [h]
    exact Nat.le_add_right _ _
  cases site_cases hstep with
  | core => exact hsame rfl
  | @post p body now hp =>
    rw [committed_update (s := s) (p := p) rfl, (receive_ok s p body now).2.2]
    split
    · exact Nat.zero_le _
    · exact Nat.le_add_right _ _
  | @next p drawn body pc _ _ hp hn =>
    obtain ⟨pc', ht, -, hpc⟩ := request_of_next hn
    rcases hpc with hpc | ⟨J, hes⟩
    · refine hsame ?_
      rw [committed_update ht, hpc]
      split
      · rename_i hqp
        subst hqp
        rw [Site.committed, hp]
        rfl
      · rfl
    · rw [hes]
      split
      · exact Nat.le_add_left 1 _
      · exact Nat.zero_le _
  | @abort p body pc _ hp ha =>
    obtain ⟨pc', ht, -, hpc⟩ := request_of_abort ha
    refine hsame ?_
    rw [committed_update ht, hpc]
    split
    · rename_i hqp
      subst hqp
      rw [Site.committed, hp]
      rfl
    · rfl

theorem Closed.tail (hc : Closed (sent :: todo)) : Closed todo := by
  intro r hr
  cases todo with
  | nil => cases hr
  | cons z todo => exact hc r hr

theorem closed_append {l l' : List Planned} (hl : Closed l) (hl' : Closed l') :
    Closed (l ++ l') := by
  intro r hr
  rw [List.getLast?_append] at hr
  cases hlast : l'.getLast? with
  | none =>
    rw [hlast] at hr
    exact hl r hr
  | some z =>
    rw [hlast] at hr
    exact hl' r (by rw [hlast]; exact hr)

theorem closed_of_all {l : List Planned} (hl : ∀ r ∈ l, r.checked = true) : Closed l :=
  fun r hr => hl r (List.mem_of_getLast? hr)

theorem closed_plan (sim : Simulation) : Closed sim.plan := by
  refine closed_append (closed_append ?_ ?_) ?_
  · refine closed_of_all (fun r hr => ?_)
    split at hr
    · obtain ⟨i, -, rfl⟩ := List.mem_map.mp hr
      rfl
    · cases hr
  · intro r hr
    split at hr <;> cases hr
    rfl
  · refine closed_of_all (fun r hr => ?_)
    split at hr
    · rw [List.eq_of_mem_replicate hr]
    · cases hr

theorem inserts_plan (sim : Simulation) : inserts sim.plan = sim.total := by
  have hdelivery : inserts (if sim.runDelivery then (List.range sim.deliveryJobs).map
      (fun i => ⟨sim.deliveryBody i, 201, true⟩) else []) = sim.deliveryJobs := by
    by_cases hd : sim.runDelivery = true
    · rw [if_pos hd, inserts, List.countP_map]
      show (List.range sim.deliveryJobs).countP (fun _ => decide (201 = 201)) = _
      simp
    · rw [if_neg hd, Simulation.deliveryJobs, if_neg hd]
      rfl
  have hburst : inserts (if sim.runRateLimit then
      List.replicate sim.burstJobs ⟨sim.burstBody, 201, true⟩ else []) = sim.burstJobs := by
    by_cases hb : sim.runRateLimit = true
    · rw [if_pos hb, inserts, List.countP_replicate]
      simp
    · rw [if_neg hb, Simulation.burstJobs, if_neg hb]
      rfl
  have hpair : inserts (if sim.runIdempotency then
      [⟨sim.duplicateBody, 201, false⟩, ⟨sim.duplicateBody, 409, true⟩] else []) =
      if sim.runIdempotency then 1 else 0 := by
    split <;> rfl
  rw [inserts] at hdelivery hburst hpair
  rw [inserts, Simulation.plan, List.countP_append, List.countP_append, hdelivery, hpair, hburst]
  rfl

theorem inserts_cons (r : Planned) (todo : List Planned) :
    inserts (r :: todo) = inserts todo + if r.expected = 201 then 1 else 0 := by
  rw [inserts, List.countP_cons]
  simp [inserts]

theorem booked_submitOn (hc : Closed todo) (hnil : todo = [] → ok = true)
    (hbound : ok = true → baseline.total + sim.total ≤ h.countP Event.creates + inserts todo) :
    Booked sim h s (sim.submitOn baseline todo ok) := by
  cases todo with
  | nil =>
    rw [Simulation.submitOn]
    split
    · exact .nothingSubmitted
    · exact .watching (hbound (hnil rfl))
  | cons r todo => exact .submitting hc hbound

theorem committed_of_status {rq : Request} {status : Nat} (hq : s.requests q = some rq)
    (hst : rq.pc.status? = some status) (h201 : status = 201) : s.committed q = true := by
  rw [Site.committed, hq, Option.any_some]
  subst h201
  cases hpc : rq.pc with
  | created => rfl
  | conflict | rejected | failed | lost =>
    rw [hpc] at hst
    cases hst
  | _ =>
    rw [hpc] at hst
    cases hst

theorem booked_answered {status : Nat} {rq : Request}
    (hb : Booked sim h s (.answering baseline q sent todo ok)) (hq : s.requests q = some rq)
    (hst : rq.pc.status? = some status) :
    Booked sim h s (sim.answered baseline sent todo ok status) := by
  cases hb with
  | answering hc hbound hother =>
    have hnew : (ok && decide (status = sent.expected)) = true →
        baseline.total + sim.total ≤ h.countP Event.creates + inserts todo := by
      intro hok
      obtain ⟨hok, hexp⟩ := Bool.and_eq_true_iff.mp hok
      have hexp := of_decide_eq_true hexp
      by_cases h201 : sent.expected = 201
      · have hle := hbound hok
        rw [if_pos (committed_of_status hq hst (hexp.trans h201))] at hle
        omega
      · exact hother hok h201
    rw [Simulation.answered]
    by_cases hch : sent.checked = true
    · simp only [hch, Bool.not_true, Bool.false_eq_true, if_false]
      split
      · rename_i hok
        exact booked_submitOn hc.tail (fun _ => rfl) (fun _ => hnew hok)
      · exact .exited
    · simp only [hch, Bool.not_false, if_true]
      refine booked_submitOn hc.tail (fun hnil => ?_) hnew
      subst hnil
      exact absurd (hc sent rfl) hch

/-! ### The site goes on -/

/-- While no job leaves `pending`, no fewer are pending. -/
theorem pending_le {core core' : State} (hr : Lts.Run (system cfg) always h core)
    (hr' : Lts.Run (system cfg) always (es ++ h) core')
    (hstay : ∀ e ∈ es, Event.exits .pending e = false) :
    core.db.countOf .pending ≤ core'.db.countOf .pending := by
  have hexits : es.countP (Event.exits .pending) = 0 :=
    List.countP_eq_zero.mpr (fun e he => by rw [hstay e he]; exact Bool.false_ne_true)
  have hcount := run_countOf hr .pending
  have hcount' := run_countOf hr' .pending
  rw [List.countP_append, List.countP_append, hexits] at hcount'
  omega

theorem booked_site {b : SiteAction} {pc : SimPc} (hb : Booked sim h s pc)
    (hr : Lts.Run (system cfg) always h s.core)
    (hr' : Lts.Run (system cfg) always (es ++ h) t.core)
    (hok : calmPolls cfg ⟨s, pc⟩ (.site b) = true)
    (hstep : siteStep cfg s b = some (t, es)) : Booked sim (es ++ h) t pc := by
  have hgrow : (es ++ h).countP Event.creates =
      es.countP Event.creates + h.countP Event.creates := List.countP_append
  cases hb with
  | measuring => exact .measuring
  | submitting hc hbound =>
    refine .submitting hc (fun hok => ?_)
    have hle := hbound hok
    omega
  | @answering baseline q sent todo ok hc hbound hother =>
    refine .answering hc (fun hok => ?_) (fun hok hne => ?_)
    · have hle := hbound hok
      have hcommit := committed_step hstep q
      omega
    · have hle := hother hok hne
      omega
  | watching hbound =>
    refine .watching ?_
    omega
  | splitting hbound hle hfailed hpending =>
    refine .splitting hbound (by omega) hfailed
      (Nat.le_trans hpending (pending_le hr hr' (fun e he => ?_)))
    simp only [calmPolls, hstep, Option.all_some, List.all_eq_true, Bool.not_eq_true'] at hok
    exact hok e he
  | balanced => exact .balanced
  | nothingSubmitted => exact .nothingSubmitted
  | exited => exact .exited

/-! ### The end of a poll -/

theorem total_eq (counts : Counts) : counts.total = counts .pending + counts .queued +
    counts .claimed + counts .sent + counts .failed + counts .deadLettered := by
  simp only [Counts.total, jobStatuses, List.map_cons, List.map_nil, List.sum_cons, List.sum_nil]
  omega

theorem length_listJobs {db : Db} {status : JobStatus} {limit : Nat} {ids : List JobId}
    (hlist : recent db (some status) limit ids = true) :
    (listJobs db ids).length = min limit (db.countOf status) := by
  rw [← length_recent hlist, listJobs, Db.returning, List.length_filterMap_eq_countP,
    List.countP_eq_length]
  intro id hid
  obtain ⟨r, hr, -⟩ := mem_recent hlist hid
  rw [hr]
  rfl

theorem booked_polled {ids : List JobId} {now : Time} {late : Bool}
    (hb : Booked sim h s (.splitting baseline counts))
    (hroom : s.core.db.countOf .pending ≤ Simulation.pendingLimit)
    (hlist : recent s.core.db (some .pending) Simulation.pendingLimit ids = true) :
    Booked sim h s (sim.polled baseline counts (listJobs s.core.db ids) now late) := by
  cases hb with
  | splitting hbound hle hfailed hpending =>
    rw [Simulation.polled]
    simp only
    split
    · rename_i hdrained
      have hlen := length_listJobs hlist
      rw [Nat.min_eq_right hroom] at hlen
      have htotal := total_eq counts
      have hbase := total_eq baseline
      simp only [Simulation.splitPending] at hdrained ⊢
      rw [Simulation.books]
      split
      · rename_i hshort
        omega
      · exact .balanced
    · split
      · exact .exited
      · exact .watching (Nat.le_trans hbound hle)

/-! ### Every run -/

theorem booked_measured {core : State} (hr : Lts.Run (system cfg) always h core) :
    (Counts.total (metrics core.db)) = h.countP Event.creates := by
  rw [Counts.total, sum_metrics]
  exact run_length hr

theorem booked_step (hb : Booked sim h x.site x.pc)
    (hr : Lts.Run (system cfg) always h x.site.core)
    (hr' : Lts.Run (system cfg) always (es ++ h) x'.site.core)
    (hok : calmPolls cfg x a = true) (hstep : simStep cfg sim x a = some (x', es)) :
    Booked sim (es ++ h) x'.site x'.pc := by
  obtain ⟨s, pc⟩ := x
  cases a with
  | site b =>
    obtain ⟨⟨site, es'⟩, hs, he⟩ := Option.map_eq_some_iff.mp hstep
    cases he
    exact booked_site hb hr hr' hok hs
  | measure =>
    simp only [simStep] at hstep
    split at hstep
    · cases hstep
      refine booked_submitOn (closed_plan sim) (fun _ => rfl) (fun _ => ?_)
      rw [booked_measured hr, inserts_plan]
      exact Nat.le_refl _
    · cases hstep
      cases hb with
      | watching hbound =>
        refine .splitting ?_ (Nat.le_of_eq (booked_measured hr)) ?_ (Nat.le_of_eq (metrics_eq _ _))
        · rw [booked_measured hr]
          exact hbound
        · rw [metrics_eq]
          exact run_failed hr
    · cases hstep
  | submit q now =>
    simp only [simStep] at hstep
    split at hstep
    · rename_i baseline next todo ok
      obtain ⟨⟨site, es'⟩, hs, he⟩ := Option.map_eq_some_iff.mp hstep
      cases he
      cases site_cases hs with
      | post body now' hq =>
        cases hb with
        | submitting hc hbound =>
          rw [inserts_cons] at hbound
          refine .answering hc (fun hok => ?_) (fun hok hne => ?_)
          · have hle := hbound hok
            rw [committed_update (s := s) (p := q) rfl, if_pos rfl, (receive_ok s q _ now).2.2]
            simp only [Option.isSome_none, Bool.false_eq_true, if_false]
            show _ ≤ h.countP Event.creates + _ + 1
            split at hle <;> omega
          · have hle := hbound hok
            rw [if_neg hne] at hle
            exact hle
    · cases hstep
  | respond =>
    simp only [simStep] at hstep
    split at hstep
    · obtain ⟨rq, hq, hstep⟩ := Option.bind_eq_some_iff.mp hstep
      obtain ⟨status, hst, he⟩ := Option.map_eq_some_iff.mp hstep
      cases he
      exact booked_answered hb hq hst
    · cases hstep
  | split ids now late =>
    simp only [simStep] at hstep
    split at hstep
    · split at hstep
      · rename_i hlist
        cases hstep
        exact booked_polled hb (of_decide_eq_true hok) hlist
      · cases hstep
    · cases hstep
  | raise =>
    simp only [simStep] at hstep
    split at hstep <;> cases hstep
    exact .exited

theorem run_booked (hr : Lts.Run (simulation cfg sim) (calmPolls cfg) h x) :
    Booked sim h x.site x.pc := by
  refine hr.invariant (I := fun h x => Booked sim h x.site x.pc) ?_ ?_
  · intro x hi
    rw [hi.pc]
    exact .measuring
  · intro h x a x' es hr hb hok hstep
    exact booked_step hb (sim_run hr) (sim_run (hr.snoc hok hstep)) hok hstep

/-- The books balance whenever they are checked. -/
def BooksBalance (cfg : Settings) (sim : Simulation) (guard : SimState → SimAction → Bool) :
    Prop :=
  ∀ h x, Lts.Run (simulation cfg sim) guard h x → ∀ baseline counts deferred,
    x.pc ≠ .unbalanced baseline counts deferred

/-- **The books balance** in every run whose polls are calm. -/
theorem books_balance (cfg : Settings) (sim : Simulation) :
    BooksBalance cfg sim (calmPolls cfg) := by
  intro h x hr baseline counts deferred hpc
  have hb := run_booked hr
  rw [hpc] at hb
  cases hb

/-- One delivery job and nothing else. -/
def oneJob : Simulation where
  api := "http://127.0.0.1:8080"
  jobs := 1
  runIdempotency := false
  runRateLimit := false
  duplicateKey := "0"

/-- It is submitted, and becomes job `7`. -/
def submitOne : List SimAction :=
  [.measure, .submit 5 0, .site (.next 5 7), .site (.next 5 0), .site (.next 5 0), .respond]

def SimPc.isBalanced : SimPc → Bool
  | .balanced _ _ _ => true
  | _ => false

def SimPc.isUnbalanced : SimPc → Bool
  | .unbalanced _ _ _ => true
  | _ => false

/-- Job `7` is delivered, and then the metrics are read. -/
theorem books_balance_one : ∃ h x, Lts.Run (simulation {} oneJob) (calmPolls {}) h x ∧
    x.pc.isBalanced = true ∧
    ∀ baseline counts deferred, x.pc ≠ .unbalanced baseline counts deferred := by
  obtain ⟨x, h, hr, hf⟩ := Lts.run_of_replay (simulation {} oneJob) (calmPolls {})
    (submitOne ++ (promotion 0 7 ++ [work 1, work 1, work 1, work 1, work 1,
      work 1 { random := 1 / 2 }, work 1, work 1]).map (fun a => .site (.core a)) ++
      [.measure, .split [] 0 false])
    (fun y => y.1.pc.isBalanced) true simInitial_empty (by decide +kernel)
  exact ⟨h, x, hr, hf, books_balance {} oneJob h x hr⟩

/-- Job `7` is promoted after the metrics are read and before the list is. -/
theorem not_always_balanced : ¬ BooksBalance {} oneJob (fun _ _ => true) := by
  intro hall
  obtain ⟨x, h, hr, hf⟩ := Lts.run_of_replay (simulation {} oneJob) (fun _ _ => true)
    (submitOne ++ [.measure] ++ (promotion 0 7).map (fun a => .site (.core a)) ++
      [.split [] 0 false])
    (fun y => y.1.pc.isUnbalanced) true simInitial_empty (by decide +kernel)
  have hno := hall h x hr
  cases hpc : x.pc with
  | unbalanced baseline counts deferred => exact hno _ _ _ hpc
  | _ =>
    simp only [hpc] at hf
    cases hf

end NotifyQueue
