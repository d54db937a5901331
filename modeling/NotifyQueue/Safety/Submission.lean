import NotifyQueue.Job.Copies
import NotifyQueue.Model.Submission

/-!
# Idempotent submission

Requests race for a key, and the index lets one of them through.  `Ok` says what
a request may rely on at each place of `create_job`: the id it has drawn is its
own, the key it has inserted is pending for it until it commits and linked to
its job from then on, and a key it has met a violation on is linked.
`Consistent` is that for every request, and that nothing is pending, linked or a
row but by a request that says so.

A step of one request leaves everything the others rely on (`Grows`), so only
the request that moves has to be looked at (`Turn`).  A run of the site is a run
of the system, whatever the requests do (`core_run`).
-/

namespace NotifyQueue

open KeyedTable

/-- The job of a request that has committed. -/
def RequestPc.committed? : RequestPc → Option JobId
  | .responding id | .created id | .lost id => some id
  | _ => none

/-- Request `q` has committed the job `J`. -/
def Site.Commits (s : Site) (q : RequestId) (J : JobId) : Prop :=
  ∃ rq, s.requests q = some rq ∧ rq.pc.committed? = some J

/-- What a dead letter of the job would be made of. -/
def JobBody.letterFields (body : JobBody) (id : JobId) : LetterFields :=
  ⟨id, body.recipient, body.channel, body.payload, body.callbackUrl⟩

/-- The job `J` is the one that `q` has committed for `body`. -/
structure Committed (s : Site) (q : RequestId) (body : JobBody) (J : JobId) : Prop where
  valid : body.valid = true
  drawn : s.drawnBy J = some q
  row : ∃ r, s.core.row J = some r ∧ r.letterFields = body.letterFields J
  linked : ∀ key, body.key = some key → s.idempotency.committed key = some J

/-- The key of `body` belongs to the job `J`. -/
structure Taken (s : Site) (body : JobBody) (key : String) (J : JobId) : Prop where
  valid : body.valid = true
  keyed : body.key = some key
  linked : s.idempotency.committed key = some J

/-- What the request `q` may rely on. -/
inductive Ok (s : Site) (q : RequestId) (body : JobBody) : RequestPc → Prop
  | inserting {sendAt : Time} : body.valid = true → Ok s q body (.inserting sendAt)
  | keying {J : JobId} {sendAt : Time} {key : String} : body.valid = true →
      s.drawnBy J = some q → body.key = some key → Ok s q body (.keying J sendAt key)
  | committing {J : JobId} {sendAt : Time} : body.valid = true → s.drawnBy J = some q →
      (∀ key, body.key = some key → s.idempotency.pending key = some (q, J)) →
      Ok s q body (.committing J sendAt)
  | responding {J : JobId} : Committed s q body J → Ok s q body (.responding J)
  | created {J : JobId} : Committed s q body J → Ok s q body (.created J)
  | lost {J : JobId} : Committed s q body J → Ok s q body (.lost J)
  | rollingBack {J : JobId} {key : String} : Taken s body key J → Ok s q body (.rollingBack key)
  | looking {J : JobId} {key : String} : Taken s body key J → Ok s q body (.looking key)
  | conflict {J : JobId} {key : String} : Taken s body key J → Ok s q body (.conflict (some J))
  | rejected : Ok s q body .rejected
  | failed : Ok s q body .failed

/-- Every request is as it should be, and nothing is there but by a request. -/
structure Consistent (s : Site) : Prop where
  request : ∀ q rq, s.requests q = some rq → Ok s q rq.body rq.pc
  pending : ∀ key q J, s.idempotency.pending key = some (q, J) → ∃ rq sendAt,
    s.requests q = some rq ∧ rq.pc = .committing J sendAt ∧ rq.body.key = some key
  linked : ∀ key J, s.idempotency.committed key = some J → ∃ q rq,
    s.requests q = some rq ∧ rq.body.key = some key ∧ rq.pc.committed? = some J
  row : ∀ J r, s.core.row J = some r → ∃ q, s.Commits q J

/-- Nothing that request `q` relies on is taken away. -/
structure Grows (s t : Site) (q : RequestId) : Prop where
  drawn : ∀ J, s.drawnBy J = some q → t.drawnBy J = some q
  pending : ∀ key J, s.idempotency.pending key = some (q, J) →
    t.idempotency.pending key = some (q, J)
  linked : ∀ key J, s.idempotency.committed key = some J →
    t.idempotency.committed key = some J
  row : ∀ J r, s.core.row J = some r → ∃ r', t.core.row J = some r' ∧ r'.fixed = r.fixed

variable {cfg : Settings} {s t : Site} {a : SiteAction} {es h : List Event} {q : RequestId}
  {rq : Request} {body : JobBody} {pc pc' : RequestPc} {J : JobId}

theorem Committed.grow (hc : Committed s q body J) (hg : Grows s t q) :
    Committed t q body J where
  valid := hc.valid
  drawn := hg.drawn J hc.drawn
  row := by
    obtain ⟨r, hr, hl⟩ := hc.row
    obtain ⟨r', hr', hf⟩ := hg.row J r hr
    exact ⟨r', hr', (congrArg Prod.fst hf).trans hl⟩
  linked key hkey := hg.linked key J (hc.linked key hkey)

theorem Taken.grow {key : String} (ht : Taken s body key J) (hg : Grows s t q) :
    Taken t body key J := ⟨ht.valid, ht.keyed, hg.linked key J ht.linked⟩

theorem Ok.grow (hok : Ok s q body pc) (hg : Grows s t q) : Ok t q body pc := by
  cases hok with
  | inserting hv => exact .inserting hv
  | keying hv hd hk => exact .keying hv (hg.drawn _ hd) hk
  | committing hv hd hp =>
    exact .committing hv (hg.drawn _ hd) (fun key hkey => hg.pending key _ (hp key hkey))
  | responding hc => exact .responding (hc.grow hg)
  | created hc => exact .created (hc.grow hg)
  | lost hc => exact .lost (hc.grow hg)
  | rollingBack ht => exact .rollingBack (ht.grow hg)
  | looking ht => exact .looking (ht.grow hg)
  | conflict ht => exact .conflict (ht.grow hg)
  | rejected => exact .rejected
  | failed => exact .failed

theorem Ok.committed (hok : Ok s q body pc) (hJ : pc.committed? = some J) :
    Committed s q body J := by
  cases hok with
  | responding hc | created hc | lost hc =>
    cases hJ
    exact hc
  | _ => cases hJ

/-! ### What a step does -/

/-- The arms of `siteStep`. -/
inductive SiteStep (cfg : Settings) (s : Site) : SiteAction → Site → List Event → Prop
  | core {b : Action} {core : State} {es : List Event} : b.isCreate = false →
      step cfg s.core b = some (core, es) → SiteStep cfg s (.core b) { s with core := core } es
  | post {q : RequestId} (body : JobBody) (now : Time) : s.requests q = none →
      SiteStep cfg s (.post q body now) (s.setRequest q ⟨body, receive body now⟩) []
  | next {q : RequestId} {drawn : JobId} {body : JobBody} {pc : RequestPc} {t : Site}
      {es : List Event} : s.requests q = some ⟨body, pc⟩ →
      requestNext cfg s q body drawn pc = some (t, es) → SiteStep cfg s (.next q drawn) t es
  | abort {q : RequestId} {body : JobBody} {pc : RequestPc} {t : Site} :
      s.requests q = some ⟨body, pc⟩ → requestAbort s q body pc = some t →
      SiteStep cfg s (.abort q) t []

theorem site_cases (hstep : siteStep cfg s a = some (t, es)) : SiteStep cfg s a t es := by
  cases a with
  | core b =>
    simp only [siteStep] at hstep
    split at hstep
    · cases hstep
    · rename_i hb
      obtain ⟨⟨core, es'⟩, hcore, he⟩ := Option.map_eq_some_iff.mp hstep
      cases he
      exact .core (Bool.eq_false_iff.mpr hb) hcore
  | post q body now =>
    simp only [siteStep] at hstep
    split at hstep
    · cases hstep
    · rename_i hq
      cases hstep
      exact .post body now hq
  | next q drawn =>
    obtain ⟨⟨body, pc⟩, hq, hn⟩ := Option.bind_eq_some_iff.mp hstep
    exact .next hq hn
  | abort q =>
    obtain ⟨⟨body, pc⟩, hq, hn⟩ := Option.bind_eq_some_iff.mp hstep
    obtain ⟨t', ha, he⟩ := Option.map_eq_some_iff.mp hn
    cases he
    exact .abort hq ha

/-! ### The step of one request -/

/-- Request `q` moves, and becomes `rq`. -/
structure Turn (s t : Site) (q : RequestId) (rq : Request) : Prop where
  requests : t.requests = Function.update s.requests q (some rq)
  others : ∀ p, p ≠ q → Grows s t p
  keeps : ∀ rq₀, s.requests q = some rq₀ → rq.body = rq₀.body ∧
    ∀ J, rq₀.pc.committed? = some J → rq.pc.committed? = some J
  ok : Ok t q rq.body rq.pc
  pending : ∀ key p J, t.idempotency.pending key = some (p, J) →
    p ≠ q ∧ s.idempotency.pending key = some (p, J) ∨
    p = q ∧ ∃ sendAt, rq.pc = .committing J sendAt ∧ rq.body.key = some key
  linked : ∀ key J, t.idempotency.committed key = some J →
    s.idempotency.committed key = some J ∨ rq.body.key = some key ∧ rq.pc.committed? = some J
  row : ∀ J r, t.core.row J = some r →
    (∃ r₀, s.core.row J = some r₀) ∨ rq.pc.committed? = some J

theorem Turn.requests_self (ht : Turn s t q rq) : t.requests q = some rq := by
  rw [ht.requests, Function.update_self]

theorem Turn.requests_of_ne (ht : Turn s t q rq) {p : RequestId} (hp : p ≠ q) :
    t.requests p = s.requests p := by
  rw [ht.requests, Function.update_of_ne hp]

theorem Turn.commits (ht : Turn s t q rq) {p : RequestId} {rq₀ : Request}
    (hp : s.requests p = some rq₀) (hJ : rq₀.pc.committed? = some J) :
    ∃ rq₁, t.requests p = some rq₁ ∧ rq₁.body = rq₀.body ∧ rq₁.pc.committed? = some J := by
  by_cases hpq : p = q
  · subst hpq
    obtain ⟨hbody, hc⟩ := ht.keeps rq₀ hp
    exact ⟨rq, ht.requests_self, hbody, hc J hJ⟩
  · exact ⟨rq₀, (ht.requests_of_ne hpq).trans hp, rfl, hJ⟩

/-- **A turn keeps the site consistent.** -/
theorem Consistent.turn (hs : Consistent s) (ht : Turn s t q rq) : Consistent t where
  request p rq₀ hp := by
    by_cases hpq : p = q
    · subst hpq
      cases ht.requests_self.symm.trans hp
      exact ht.ok
    · rw [ht.requests_of_ne hpq] at hp
      exact (hs.request p rq₀ hp).grow (ht.others p hpq)
  pending key p J hk := by
    rcases ht.pending key p J hk with ⟨hpq, hk⟩ | ⟨rfl, sendAt, hpc, hkey⟩
    · obtain ⟨rq₀, sendAt, hp, hpc, hkey⟩ := hs.pending key p J hk
      exact ⟨rq₀, sendAt, (ht.requests_of_ne hpq).trans hp, hpc, hkey⟩
    · exact ⟨rq, sendAt, ht.requests_self, hpc, hkey⟩
  linked key J hk := by
    rcases ht.linked key J hk with hk | ⟨hkey, hJ⟩
    · obtain ⟨p, rq₀, hp, hkey, hJ⟩ := hs.linked key J hk
      obtain ⟨rq₁, hp', hbody, hJ'⟩ := ht.commits hp hJ
      exact ⟨p, rq₁, hp', by rw [hbody, hkey], hJ'⟩
    · exact ⟨q, rq, ht.requests_self, hkey, hJ⟩
  row J r hr := by
    rcases ht.row J r hr with ⟨r₀, hr₀⟩ | hJ
    · obtain ⟨p, rq₀, hp, hJ⟩ := hs.row J r₀ hr₀
      obtain ⟨rq₁, hp', -, hJ'⟩ := ht.commits hp hJ
      exact ⟨p, rq₁, hp', hJ'⟩
    · exact ⟨q, rq, ht.requests_self, hJ⟩

/-- A request has nothing pending but between its insert of the key and its commit. -/
theorem Consistent.not_pending (hs : Consistent s) (hq : s.requests q = some ⟨body, pc⟩)
    (hpc : ∀ J sendAt, pc ≠ .committing J sendAt) (key : String) (J : JobId) :
    s.idempotency.pending key ≠ some (q, J) := by
  intro hk
  obtain ⟨rq₀, sendAt, hq₀, hpc₀, -⟩ := hs.pending key q J hk
  cases hq.symm.trans hq₀
  exact hpc J sendAt hpc₀

theorem turn_quiet (hq : s.requests q = some ⟨body, pc⟩)
    (hkeep : ∀ J, pc.committed? = some J → pc'.committed? = some J)
    {ix : UniqueIndex String RequestId JobId} (hc : ix.committed = s.idempotency.committed)
    (hp : ∀ key p J, ix.pending key = some (p, J) ↔
      s.idempotency.pending key = some (p, J) ∧ p ≠ q)
    (hok : Ok ({ s with idempotency := ix }.setRequest q ⟨body, pc'⟩) q body pc') :
    Turn s ({ s with idempotency := ix }.setRequest q ⟨body, pc'⟩) q ⟨body, pc'⟩ where
  requests := rfl
  others p hpq := by
    refine ⟨fun J hJ => hJ, fun key J hk => (hp key p J).mpr ⟨hk, hpq⟩, fun key J hk => ?_,
      fun J r hr => ⟨r, hr, rfl⟩⟩
    show ix.committed key = some J
    rw [hc]
    exact hk
  keeps rq₀ hq₀ := by
    cases hq.symm.trans hq₀
    exact ⟨rfl, hkeep⟩
  ok := hok
  pending key p J hk := Or.inl ((hp key p J).mp hk).symm
  linked key J hk := by
    refine Or.inl ?_
    rw [← hc]
    exact hk
  row J r hr := Or.inl ⟨r, hr⟩

theorem turn_goto (hs : Consistent s) (hq : s.requests q = some ⟨body, pc⟩)
    (hpc : ∀ J sendAt, pc ≠ .committing J sendAt)
    (hkeep : ∀ J, pc.committed? = some J → pc'.committed? = some J)
    (hok : Ok (s.setRequest q ⟨body, pc'⟩) q body pc') :
    Turn s (s.setRequest q ⟨body, pc'⟩) q ⟨body, pc'⟩ := by
  refine turn_quiet hq hkeep rfl (fun key p J => ?_) hok
  constructor
  · intro hk
    refine ⟨hk, ?_⟩
    rintro rfl
    exact hs.not_pending hq hpc key J hk
  · intro hk
    exact hk.1

theorem turn_abort (hq : s.requests q = some ⟨body, pc⟩) (hnone : pc.committed? = none)
    (hok : Ok ({ s with idempotency := s.idempotency.abort q }.setRequest q ⟨body, pc'⟩)
      q body pc') :
    Turn s ({ s with idempotency := s.idempotency.abort q }.setRequest q ⟨body, pc'⟩) q
      ⟨body, pc'⟩ := by
  refine turn_quiet hq (fun J hJ => ?_) rfl (fun key p J => UniqueIndex.pending_abort) hok
  cases hnone.symm.trans hJ

/-! ### Every step -/

/-- The row of `INSERT_JOB` is new, as long as nobody else has drawn its id. -/
theorem Consistent.row_free (hs : Consistent s) (hq : s.requests q = some ⟨body, pc⟩)
    (hd : s.drawnBy J = some q) (hnone : pc.committed? = none) : s.core.row J = none := by
  cases hr : s.core.row J with
  | none => rfl
  | some r =>
    obtain ⟨p, rq, hp, hJ⟩ := hs.row J r hr
    have hpq := ((hs.request p rq hp).committed hJ).drawn
    cases hpq.symm.trans hd
    cases hq.symm.trans hp
    cases hnone.symm.trans hJ

theorem receive_ok (s : Site) (q : RequestId) (body : JobBody) (now : Time) :
    Ok s q body (receive body now) ∧ (∀ J sendAt, receive body now ≠ .committing J sendAt) ∧
      (receive body now).committed? = none := by
  unfold receive
  split
  · rename_i hv
    split
    · exact ⟨.failed, by simp, rfl⟩
    · exact ⟨.inserting hv, by simp, rfl⟩
  · exact ⟨.rejected, by simp, rfl⟩

theorem turn_post (hs : Consistent s) (hq : s.requests q = none) (body : JobBody) (now : Time) :
    Turn s (s.setRequest q ⟨body, receive body now⟩) q ⟨body, receive body now⟩ where
  requests := rfl
  others p _ := ⟨fun _ hJ => hJ, fun _ _ hk => hk, fun _ _ hk => hk, fun _ r hr => ⟨r, hr, rfl⟩⟩
  keeps rq₀ hq₀ := by cases hq.symm.trans hq₀
  ok := (receive_ok _ q body now).1
  pending key p J hk := by
    refine Or.inl ⟨?_, hk⟩
    rintro rfl
    obtain ⟨rq, sendAt, hp, -⟩ := hs.pending key p J hk
    cases hq.symm.trans hp
  linked key J hk := Or.inl hk
  row J r hr := Or.inl ⟨r, hr⟩

theorem turn_insert (hs : Consistent s) {sendAt : Time} {drawn : JobId}
    (hq : s.requests q = some ⟨body, .inserting sendAt⟩) (hd : s.drawnBy drawn = none)
    (hok : ∀ t : Site, t.drawnBy drawn = some q → Ok t q body pc') :
    Turn s ({ s with drawnBy := Function.update s.drawnBy drawn (some q) }.setRequest q
      ⟨body, pc'⟩) q ⟨body, pc'⟩ where
  requests := rfl
  others p _ := by
    refine ⟨fun J hJ => ?_, fun _ _ hk => hk, fun _ _ hk => hk, fun _ r hr => ⟨r, hr, rfl⟩⟩
    have hne : J ≠ drawn := by
      rintro rfl
      cases hd.symm.trans hJ
    exact (Function.update_of_ne hne _ _).trans hJ
  keeps rq₀ hq₀ := by
    cases hq.symm.trans hq₀
    exact ⟨rfl, fun J hJ => by cases hJ⟩
  ok := hok _ (Function.update_self _ _ _)
  pending key p J hk := by
    refine Or.inl ⟨?_, hk⟩
    rintro rfl
    exact hs.not_pending hq (by simp) key J hk
  linked key J hk := Or.inl hk
  row J r hr := Or.inl ⟨r, hr⟩

theorem turn_key (hs : Consistent s) {sendAt : Time} {key : String}
    {ix : UniqueIndex String RequestId JobId}
    (hq : s.requests q = some ⟨body, .keying J sendAt key⟩)
    (hi : s.idempotency.insert q key J = .done ix) :
    Turn s ({ s with idempotency := ix }.setRequest q ⟨body, .committing J sendAt⟩) q
      ⟨body, .committing J sendAt⟩ := by
  obtain ⟨-, hc, -⟩ := UniqueIndex.insert_done hi
  obtain ⟨hv, hd, hkey⟩ : body.valid = true ∧ s.drawnBy J = some q ∧ body.key = some key := by
    cases hs.request q _ hq with
    | keying hv hd hkey => exact ⟨hv, hd, hkey⟩
  refine ⟨rfl, fun p hpq => ?_, fun rq₀ hq₀ => ?_, ?_, fun key' p J' hk => ?_,
    fun key' J' hk => ?_, fun J' r hr => Or.inl ⟨r, hr⟩⟩
  · refine ⟨fun J' hJ' => hJ', fun key' J' hk => ?_, fun key' J' hk => ?_,
      fun J' r hr => ⟨r, hr, rfl⟩⟩
    · exact (UniqueIndex.pending_insert hi).mpr (Or.inr hk)
    · show ix.committed key' = some J'
      rw [hc]
      exact hk
  · cases hq.symm.trans hq₀
    exact ⟨rfl, fun J' hJ' => by cases hJ'⟩
  · refine .committing hv hd (fun key' hkey' => ?_)
    cases hkey.symm.trans hkey'
    exact (UniqueIndex.pending_insert hi).mpr (Or.inl ⟨rfl, rfl, rfl⟩)
  · rcases (UniqueIndex.pending_insert hi).mp hk with ⟨rfl, rfl, rfl⟩ | hold
    · exact Or.inr ⟨rfl, sendAt, rfl, hkey⟩
    · refine Or.inl ⟨?_, hold⟩
      rintro rfl
      exact hs.not_pending hq (by simp) key' J' hold
  · refine Or.inl ?_
    rw [← hc]
    exact hk

theorem turn_commit (hs : Consistent s) {sendAt : Time} {core : State}
    (hq : s.requests q = some ⟨body, .committing J sendAt⟩)
    (hstep : step cfg s.core (.createJob J (body.columns sendAt)) = some (core, es)) :
    Turn s ({ s with core := core, idempotency := s.idempotency.commit q }.setRequest q
      ⟨body, .responding J⟩) q ⟨body, .responding J⟩ := by
  obtain ⟨hv, hd, hp⟩ : body.valid = true ∧ s.drawnBy J = some q ∧
      ∀ key, body.key = some key → s.idempotency.pending key = some (q, J) := by
    cases hs.request q _ hq with
    | committing hv hd hp => exact ⟨hv, hd, hp⟩
  have hrow : ∀ J', core.row J' =
      if J' = J then some (insertJob cfg s.core.db.now J (body.columns sendAt))
      else s.core.row J' := by
    obtain ⟨jobs, hi, he⟩ := Option.map_eq_some_iff.mp hstep
    cases he
    exact (Table.find?_insert? hi).2
  have hself := (hrow J).trans (if_pos rfl)
  refine ⟨rfl, fun p hpq => ?_, fun rq₀ hq₀ => ?_, ?_, fun key p J' hk => ?_, fun key J' hk => ?_,
    fun J' r hr => ?_⟩
  · refine ⟨fun J' hJ' => hJ', fun key J' hk => ?_, fun key J' hk => ?_, fun J' r hr => ?_⟩
    · exact UniqueIndex.pending_commit.mpr ⟨hk, hpq⟩
    · exact UniqueIndex.committed_commit.mpr (Or.inr hk)
    · exact row_fixed hstep hr
  · cases hq.symm.trans hq₀
    exact ⟨rfl, fun J' hJ' => by cases hJ'⟩
  · refine .responding ⟨hv, hd, ⟨_, hself, rfl⟩, fun key hkey => ?_⟩
    exact UniqueIndex.committed_commit.mpr (Or.inl (hp key hkey))
  · exact Or.inl (UniqueIndex.pending_commit.mp hk).symm
  · rcases UniqueIndex.committed_commit.mp hk with hk | hk
    · obtain ⟨rq₀, sendAt', hq₀, hpc, hkey⟩ := hs.pending key q J' hk
      cases hq.symm.trans hq₀
      cases hpc
      exact Or.inr ⟨hkey, rfl⟩
    · exact Or.inl hk
  · by_cases hJ : J' = J
    · subst hJ
      exact Or.inr rfl
    · exact Or.inl ⟨r, ((hrow J').trans (if_neg hJ)).symm.trans hr⟩

/-- **Where a request moves to.** -/
theorem turn_of_next (hs : Consistent s) {drawn : JobId} (hq : s.requests q = some ⟨body, pc⟩)
    (h : requestNext cfg s q body drawn pc = some (t, es)) : ∃ rq, Turn s t q rq := by
  have hok := hs.request q _ hq
  cases hok with
  | @inserting sendAt hv =>
    simp only [requestNext] at h
    split at h
    · cases h
    · rename_i hd
      cases h
      refine ⟨_, turn_insert hs hq (by simpa using hd) (fun t ht => ?_)⟩
      cases hkey : body.key with
      | none =>
        refine .committing hv ht (fun key hk => ?_)
        cases hkey.symm.trans hk
      | some key => exact .keying hv ht hkey
  | @keying J sendAt key hv _ hkey =>
    simp only [requestNext] at h
    split at h
    · rename_i ix hi
      cases h
      exact ⟨_, turn_key hs hq hi⟩
    · rename_i hi
      cases h
      obtain ⟨J', hJ'⟩ := UniqueIndex.insert_violation hi (hs.not_pending hq (by simp) key)
      exact ⟨_, turn_goto hs hq (by simp) (fun J hJ => by cases hJ)
        (.rollingBack ⟨hv, hkey, hJ'⟩)⟩
    · cases h
  | committing =>
    obtain ⟨⟨core, es'⟩, hstep, he⟩ := Option.map_eq_some_iff.mp h
    cases he
    exact ⟨_, turn_commit hs hq hstep⟩
  | responding hc =>
    cases h
    exact ⟨_, turn_goto hs hq (by simp) (fun J hJ => hJ)
      (.created ⟨hc.valid, hc.drawn, hc.row, hc.linked⟩)⟩
  | rollingBack ht =>
    cases h
    exact ⟨_, turn_abort hq rfl (.looking ⟨ht.valid, ht.keyed, ht.linked⟩)⟩
  | looking ht =>
    cases h
    refine ⟨_, turn_goto hs hq (by simp) (fun J hJ => by cases hJ) ?_⟩
    rw [ht.linked]
    exact .conflict ⟨ht.valid, ht.keyed, ht.linked⟩
  | created | lost | conflict | rejected | failed => cases h

theorem turn_of_abort (hs : Consistent s) (hq : s.requests q = some ⟨body, pc⟩)
    (h : requestAbort s q body pc = some t) : ∃ rq, Turn s t q rq := by
  have hok := hs.request q _ hq
  cases hok with
  | inserting | keying | committing | rollingBack | looking =>
    cases h
    exact ⟨_, turn_abort hq rfl .failed⟩
  | responding hc =>
    cases h
    exact ⟨_, turn_goto hs hq (by simp) (fun J hJ => hJ)
      (.lost ⟨hc.valid, hc.drawn, hc.row, hc.linked⟩)⟩
  | created | lost | conflict | rejected | failed => cases h

theorem request_of_next {drawn : JobId} (h : requestNext cfg s q body drawn pc = some (t, es)) :
    ∃ pc', t.requests = Function.update s.requests q (some ⟨body, pc'⟩) ∧ pc' ≠ .rejected ∧
      (pc'.committed? = pc.committed? ∨ ∃ J, es = [.created J]) := by
  cases pc with
  | inserting sendAt =>
    simp only [requestNext] at h
    split at h <;> cases h
    refine ⟨_, rfl, ?_, Or.inl ?_⟩ <;> split <;> simp [RequestPc.committed?]
  | keying id sendAt key =>
    simp only [requestNext] at h
    split at h <;> cases h <;> exact ⟨_, rfl, by simp, Or.inl rfl⟩
  | committing id sendAt =>
    obtain ⟨⟨core, es'⟩, hcore, he⟩ := Option.map_eq_some_iff.mp h
    obtain ⟨jobs, -, hjobs⟩ := Option.map_eq_some_iff.mp hcore
    cases hjobs
    cases he
    exact ⟨_, rfl, by simp, Or.inr ⟨id, rfl⟩⟩
  | responding | rollingBack | looking =>
    cases h
    exact ⟨_, rfl, by simp, Or.inl rfl⟩
  | created | conflict | rejected | failed | lost => cases h

theorem request_of_abort (h : requestAbort s q body pc = some t) :
    ∃ pc', t.requests = Function.update s.requests q (some ⟨body, pc'⟩) ∧ pc' ≠ .rejected ∧
      pc'.committed? = pc.committed? := by
  cases pc with
  | created | conflict | rejected | failed | lost => cases h
  | _ =>
    cases h
    exact ⟨_, rfl, by simp, rfl⟩

theorem row_of_not_create {s t : State} {a : Action} (h : step cfg s a = some (t, es))
    (ha : a.isCreate = false) {r : Job} (hr : t.row J = some r) : ∃ r₀, s.row J = some r₀ := by
  obtain ⟨before, after, e, ls, hb, hafter, -, -, hE⟩ := step_effect h J
  cases hE with
  | create => cases ha
  | stay | deliver => exact ⟨r, by rw [hb, ← hafter, hr]⟩
  | _ => exact ⟨_, hb⟩

/-- **A step of the site** is one of the system without its requests, or the turn
of a request. -/
theorem site_step (hs : Consistent s) (hstep : siteStep cfg s a = some (t, es)) :
    (∃ core b, b.isCreate = false ∧ step cfg s.core b = some (core, es) ∧
      t = { s with core := core }) ∨ ∃ q rq, Turn s t q rq := by
  cases site_cases hstep with
  | core hb hcore => exact Or.inl ⟨_, _, hb, hcore, rfl⟩
  | post body now hq => exact Or.inr ⟨_, _, turn_post hs hq body now⟩
  | next hq hn => exact Or.inr ⟨_, turn_of_next hs hq hn⟩
  | abort hq ha => exact Or.inr ⟨_, turn_of_abort hs hq ha⟩

theorem consistent_step (hs : Consistent s) (hstep : siteStep cfg s a = some (t, es)) :
    Consistent t := by
  rcases site_step hs hstep with ⟨core, b, hb, hcore, rfl⟩ | ⟨q, rq, ht⟩
  · have hg : ∀ q, Grows s { s with core := core } q := fun q =>
      ⟨fun _ hJ => hJ, fun _ _ hk => hk, fun _ _ hk => hk, fun J r hr => row_fixed hcore hr⟩
    refine ⟨fun q rq hq => (hs.request q rq hq).grow (hg q), hs.pending, hs.linked,
      fun J r hr => ?_⟩
    obtain ⟨r₀, hr₀⟩ := row_of_not_create hcore hb hr
    exact hs.row J r₀ hr₀
  · exact hs.turn ht

/-- **A link is for good**: the request that has committed it is still there. -/
theorem linked_step (hs : Consistent s) (hstep : siteStep cfg s a = some (t, es)) {key : String}
    (hk : s.idempotency.committed key = some J) : t.idempotency.committed key = some J := by
  obtain ⟨p, rq, hp, hkey, hJ⟩ := hs.linked key J hk
  rcases site_step hs hstep with ⟨core, b, -, -, rfl⟩ | ⟨q, rq', ht⟩
  · exact hk
  · obtain ⟨rq₁, hp₁, hbody, hJ₁⟩ := ht.commits hp hJ
    have hok := (hs.turn ht).request p rq₁ hp₁
    exact (hok.committed hJ₁).linked key (by rw [hbody, hkey])

theorem consistent_init (hs : SiteInitial s) : Consistent s where
  request q rq hq := by
    rw [hs.requests] at hq
    cases hq
  pending key q J hk := by
    rw [hs.idempotency] at hk
    cases hk
  linked key J hk := by
    rw [hs.idempotency] at hk
    cases hk
  row J r hr := by
    rw [row_initial hs.core] at hr
    cases hr

theorem run_consistent (hr : Lts.Run (site cfg) anyStep h s) : Consistent s :=
  hr.invariant (I := fun _ s => Consistent s) (fun _ hi => consistent_init hi)
    (fun _ _ _ _ _ _ hs _ hstep => consistent_step hs hstep)

theorem linked_path (hr : Lts.Run (site cfg) anyStep h s) {k : List Event}
    (hp : Lts.Path (site cfg) anyStep s k t) {key : String}
    (hk : s.idempotency.committed key = some J) : t.idempotency.committed key = some J :=
  hp.stable (Q := fun s => s.idempotency.committed key = some J)
    (fun _ _ _ _ _ hr hk _ hstep => linked_step (run_consistent hr) hstep hk) hr hk

/-! ### The site over the system -/

/-- To the system a request does nothing until it commits. -/
theorem core_of_next {drawn : JobId} (h : requestNext cfg s q body drawn pc = some (t, es)) :
    t.core = s.core ∧ es = [] ∨ ∃ b, step cfg s.core b = some (t.core, es) := by
  cases pc with
  | inserting sendAt =>
    simp only [requestNext] at h
    split at h <;> cases h
    exact Or.inl ⟨rfl, rfl⟩
  | keying id sendAt key =>
    simp only [requestNext] at h
    split at h <;> cases h <;> exact Or.inl ⟨rfl, rfl⟩
  | committing id sendAt =>
    obtain ⟨⟨core, es'⟩, hcore, he⟩ := Option.map_eq_some_iff.mp h
    cases he
    exact Or.inr ⟨_, hcore⟩
  | responding | rollingBack | looking =>
    cases h
    exact Or.inl ⟨rfl, rfl⟩
  | created | conflict | rejected | failed | lost => cases h

theorem core_of_abort (h : requestAbort s q body pc = some t) : t.core = s.core := by
  cases pc <;> cases h <;> rfl

theorem core_step (hstep : siteStep cfg s a = some (t, es)) :
    t.core = s.core ∧ es = [] ∨ ∃ b, step cfg s.core b = some (t.core, es) := by
  cases site_cases hstep with
  | core _ hcore => exact Or.inr ⟨_, hcore⟩
  | post => exact Or.inl ⟨rfl, rfl⟩
  | next _ hn => exact core_of_next hn
  | abort _ ha => exact Or.inl ⟨core_of_abort ha, rfl⟩

/-- **A run of the site is a run of the system**, with a `POST /jobs` where a
request commits. -/
theorem core_run (hr : Lts.Run (site cfg) anyStep h s) :
    Lts.Run (system cfg) always h s.core := by
  refine hr.invariant (I := fun h s => Lts.Run (system cfg) always h s.core) ?_ ?_
  · intro s hi
    exact Lts.Run.init (S := system cfg) hi.core
  · intro h s a t es _ hrun _ hstep
    rcases core_step hstep with ⟨hcore, rfl⟩ | ⟨b, hb⟩
    · rwa [hcore]
    · exact hrun.snoc rfl hb

/-! ### What the requests are answered -/

/-- The site `s`: keys and jobs, answers, and rows. -/
structure IdempotentSubmission (cfg : Settings) (s : Site) : Prop where
  /-- A key is linked to a job, and never to another one. -/
  linked : ∀ key J, s.idempotency.committed key = some J → (∃ r, s.core.row J = some r) ∧
    ∀ k t J', Lts.Path (site cfg) anyStep s k t → t.idempotency.committed key = some J' → J' = J
  /-- One request with the key is answered with 201, for the job of the key. -/
  created : ∀ key p rp J, s.requests p = some rp → rp.body.idempotencyKey = some key →
    rp.pc = .created J → s.idempotency.committed key = some J ∧
    ∀ q rq J', s.requests q = some rq → rq.body.idempotencyKey = some key →
      rq.pc = .created J' → q = p
  /-- A 409 is for a key, and names its job. -/
  conflict : ∀ q rq existing, s.requests q = some rq → rq.pc = .conflict existing →
    ∃ key J, rq.body.idempotencyKey = some key ∧ s.idempotency.committed key = some J ∧
      existing = some J
  /-- A request that has committed has its row. -/
  row : ∀ q rq J, s.requests q = some rq → rq.pc.committed? = some J →
    ∃ r, s.core.row J = some r ∧ r.letterFields = rq.body.letterFields J
  /-- A row is that of one request. -/
  request : ∀ J r, s.core.row J = some r → ∃ q, s.Commits q J ∧ ∀ p, s.Commits p J → p = q
  /-- A request that has not committed, for whatever reason, has no row. -/
  noRow : ∀ q rq J, s.requests q = some rq → rq.pc.committed? = none →
    s.drawnBy J = some q → s.core.row J = none

theorem JobBody.key_of_valid (hv : body.valid = true) : body.key = body.idempotencyKey := by
  simp only [valid, Bool.and_eq_true] at hv
  cases hk : body.idempotencyKey with
  | none => rw [key, hk, Option.filter_none]
  | some key =>
    have hne := hv.1.2
    rw [hk] at hne
    rw [JobBody.key, hk]
    exact if_pos hne

theorem Ok.keyed (hok : Ok s q body pc) (hpc : pc ≠ .rejected ∧ pc ≠ .failed) :
    body.key = body.idempotencyKey := by
  apply JobBody.key_of_valid
  cases hok with
  | inserting hv | keying hv | committing hv => exact hv
  | responding h | created h | lost h | rollingBack h | looking h | conflict h => exact h.valid
  | rejected => exact absurd rfl hpc.1
  | failed => exact absurd rfl hpc.2

/-- **Requests with one key commit once.** -/
theorem Consistent.commits_once (hs : Consistent s) {p : RequestId} {rp : Request} {J' : JobId}
    {key : String} (hp : s.requests p = some rp) (hq : s.requests q = some rq)
    (hkp : rp.body.key = some key) (hkq : rq.body.key = some key)
    (hJ : rp.pc.committed? = some J) (hJ' : rq.pc.committed? = some J') : q = p := by
  have hcp := (hs.request p rp hp).committed hJ
  have hcq := (hs.request q rq hq).committed hJ'
  cases (hcp.linked key hkp).symm.trans (hcq.linked key hkq)
  cases hcq.drawn.symm.trans hcp.drawn
  rfl

/-- **Submission is idempotent**, in every run. -/
theorem idempotent_submission (hr : Lts.Run (site cfg) anyStep h s) :
    IdempotentSubmission cfg s := by
  have hs := run_consistent hr
  refine ⟨fun key J hk => ⟨?_, fun k t J' hp hk' => ?_⟩, fun key p rp J hp hkp hpc => ?_,
    fun q rq existing hq hpc => ?_, fun q rq J hq hJ => ((hs.request q rq hq).committed hJ).row,
    fun J r hrow => ?_, fun q rq J hq hnone hd => hs.row_free hq hd hnone⟩
  · obtain ⟨q, rq, hq, -, hJ⟩ := hs.linked key J hk
    obtain ⟨r, hrow, -⟩ := ((hs.request q rq hq).committed hJ).row
    exact ⟨r, hrow⟩
  · exact Option.some.inj (hk'.symm.trans (linked_path hr hp hk))
  · have hJ : rp.pc.committed? = some J := by rw [hpc]; rfl
    have hkey := (hs.request p rp hp).keyed (by rw [hpc]; simp)
    refine ⟨((hs.request p rp hp).committed hJ).linked key (hkey.trans hkp), ?_⟩
    intro q rq J' hq hkq hpc'
    have hJ' : rq.pc.committed? = some J' := by rw [hpc']; rfl
    have hkey' := (hs.request q rq hq).keyed (by rw [hpc']; simp)
    exact hs.commits_once hp hq (hkey.trans hkp) (hkey'.trans hkq) hJ hJ'
  · have hok := hs.request q rq hq
    have hkey := hok.keyed (by rw [hpc]; simp)
    rw [hpc] at hok
    cases hok with
    | @conflict J key ht => exact ⟨key, J, hkey.symm.trans ht.keyed, ht.linked, rfl⟩
  · obtain ⟨q, rq, hq, hJ⟩ := hs.row J r hrow
    refine ⟨q, ⟨rq, hq, hJ⟩, ?_⟩
    rintro p ⟨rp, hp, hJp⟩
    have hdp := ((hs.request p rp hp).committed hJp).drawn
    have hdq := ((hs.request q rq hq).committed hJ).drawn
    exact Option.some.inj (hdp.symm.trans hdq)

/-- The status and the job of a response. -/
def RequestPc.response? : RequestPc → Option (Nat × Option JobId)
  | .created id => some (201, some id)
  | .conflict existing => some (409, existing)
  | .rejected => some (422, none)
  | _ => none

/-- An e-mail without `send_at` under a key. -/
def keyedBody (key : String) : JobBody :=
  { recipient := "user@example.com", channel := .email, payload := "x", idempotencyKey := some key }

/-- Two requests race for the key `"order"`: both insert a job, the first one its
key; it commits, and the second is answered with the first one's job. -/
theorem idempotent_submission_race : ∃ h s rp rq, Lts.Run (site {}) anyStep h s ∧
    s.requests 1 = some rp ∧ rp.pc.response? = some (201, some 7) ∧
    s.requests 2 = some rq ∧ rq.pc.response? = some (409, some 7) ∧
    IdempotentSubmission {} s := by
  obtain ⟨s, h, hr, hf⟩ := Lts.run_of_replay (site {}) anyStep
    [.post 1 (keyedBody "order") 0, .post 2 (keyedBody "order") 0, .next 1 7, .next 2 8,
      .next 1 0, .next 1 0, .next 2 0, .next 2 0, .next 2 0, .next 1 0]
    (fun p => ((p.1.requests 1).map (fun rq => rq.pc.response?),
      (p.1.requests 2).map (fun rq => rq.pc.response?)))
    (some (some (201, some 7)), some (some (409, some 7))) siteInitial_empty (by decide +kernel)
  obtain ⟨h₁, h₂⟩ := Prod.mk.inj hf
  obtain ⟨rp, hp, hrp⟩ := Option.map_eq_some_iff.mp h₁
  obtain ⟨rq, hq, hrq⟩ := Option.map_eq_some_iff.mp h₂
  exact ⟨h, s, rp, rq, hr, hp, hrp, hq, hrq, idempotent_submission hr⟩

end NotifyQueue
