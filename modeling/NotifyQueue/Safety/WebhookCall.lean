import NotifyQueue.Job.Calls

/-!
# A call of `fire_webhook`

Every attempt is logged and the call returns, as long as the HTTP client raises
nothing but `httpx.HTTPError` and the delay between two attempts is one that
`asyncio.sleep` accepts (`webhook_audited`).  The induction is on the attempts
still to come, for the loop from any attempt on.

An attempt of the call is an attempt of its worker in the system
(`path_of_webhookLoop`).
-/

namespace NotifyQueue

/-- The first of the attempts that is answered below 500, or the last there is. -/
def decisive (maxAttempts : Nat) (reply : Nat → Reply) (attempts : List Nat) : Nat :=
  (attempts.find? (fun a => (reply a).answered)).getD maxAttempts

/-- The log row of an attempt. -/
def logRow (n : Notice) (url : String) (reply : Nat → Reply) (attempt : Nat) : WebhookLog :=
  ⟨n.jobId, url, n.status, (reply attempt).httpStatus, attempt⟩

/-- The database with the log rows of some attempts. -/
def Db.logAttempts (db : Db) (n : Notice) (url : String) (reply : Nat → Reply)
    (attempts : List Nat) : Db :=
  { db with webhookLog := db.webhookLog ++ attempts.map (logRow n url reply) }

/-- With `k` attempts, the first answered one or all there are, the call returns
after `k` requests and has logged them as number `1` to `k`. -/
def WebhookAudited (maxAttempts : Nat) (n : Notice) (url : String) (reply : Nat → Reply) (db : Db) :
    Prop :=
  let k := decisive maxAttempts reply (List.range' 1 maxAttempts)
  fireWebhookCall maxAttempts n reply db = ⟨db.logAttempts n url reply (List.range' 1 k), k, true⟩

variable {n : Notice} {url : String} {maxAttempts : Nat} {reply : Nat → Reply} {a m : Nat}

/-- No attempt of the loop from `a` on raises, and no sleep between two of them. -/
structure Smooth (maxAttempts : Nat) (reply : Nat → Reply) (a m : Nat) : Prop where
  caught : ∀ x, a ≤ x → x ≤ decisive maxAttempts reply (List.range' a m) → reply x ≠ .otherError
  slept : ∀ x, a ≤ x → x < decisive maxAttempts reply (List.range' a m) → x < 1024

/-! ### The loop from any attempt on -/

theorem decisive_answered (h : (reply a).answered = true) :
    decisive maxAttempts reply (List.range' a (m + 1)) = a := by
  rw [decisive, List.range'_succ, List.find?_cons_of_pos (p := fun a => (reply a).answered) h]
  rfl

theorem decisive_not_answered (h : (reply a).answered = false) :
    decisive maxAttempts reply (List.range' a (m + 1)) =
      decisive maxAttempts reply (List.range' (a + 1) m) := by
  rw [decisive, List.range'_succ, List.find?_cons_of_neg (by simp [h]), decisive]

theorem le_decisive (reply : Nat → Reply) (h : a + m = maxAttempts + 1) :
    a ≤ decisive maxAttempts reply (List.range' a m) + 1 ∧
      (0 < m → a ≤ decisive maxAttempts reply (List.range' a m)) := by
  rw [decisive]
  cases hf : (List.range' a m).find? (fun a => (reply a).answered) with
  | none =>
    rw [Option.getD_none]
    omega
  | some x =>
    have hx := List.mem_range'_1.mp (List.mem_of_find?_eq_some hf)
    rw [Option.getD_some]
    omega

theorem smooth_succ (h : a + (m + 1) = maxAttempts + 1) (hno : (reply a).answered = false) :
    Smooth maxAttempts reply a (m + 1) ↔ reply a ≠ .otherError ∧
      (a < maxAttempts → a < 1024) ∧ Smooth maxAttempts reply (a + 1) m := by
  have hle := le_decisive reply (show a + 1 + m = maxAttempts + 1 by omega)
  constructor
  · rintro ⟨hcaught, hslept⟩
    rw [decisive_not_answered hno] at hcaught hslept
    refine ⟨hcaught a le_rfl (by omega), fun hlt => ?_, ⟨fun x hx => hcaught x (by omega),
      fun x hx => hslept x (by omega)⟩⟩
    exact hslept a le_rfl (hle.2 (by omega))
  · rintro ⟨hne, hlast, hcaught, hslept⟩
    refine ⟨fun x hx hk => ?_, fun x hx hk => ?_⟩ <;> rw [decisive_not_answered hno] at hk
    · rcases eq_or_lt_of_le hx with rfl | hx
      · exact hne
      · exact hcaught x hx hk
    · rcases eq_or_lt_of_le hx with rfl | hx
      · refine hlast ?_
        by_contra hlt
        -- the loop has no attempt after the last one
        obtain rfl : m = 0 := by omega
        rw [decisive] at hk
        simp at hk
        omega
      · exact hslept x hx hk

/-- **A smooth loop** logs every attempt up to the decisive one. -/
theorem loop_of_smooth {db : Db} (h : a + m = maxAttempts + 1)
    (hs : Smooth maxAttempts reply a m) :
    webhookLoop n url maxAttempts reply (List.range' a m) db =
      let k := decisive maxAttempts reply (List.range' a m)
      ⟨db.logAttempts n url reply (List.range' a (k + 1 - a)), k + 1 - a, true⟩ := by
  dsimp only
  induction m generalizing a db with
  | zero =>
    have hzero : decisive maxAttempts reply (List.range' a 0) + 1 - a = 0 := by
      rw [decisive]
      simp
      omega
    rw [hzero]
    simp [webhookLoop, Db.logAttempts]
  | succ m ih =>
    cases hans : (reply a).answered with
    | true =>
      have hne : reply a ≠ .otherError := hs.caught a le_rfl (by rw [decisive_answered hans])
      rw [decisive_answered hans, List.range'_succ, webhookLoop, if_neg hne, if_pos hans]
      simp [Db.logAttempts, logRow]
    | false =>
      obtain ⟨hne, hlast, hs'⟩ := (smooth_succ h hans).mp hs
      have hle := le_decisive reply (show a + 1 + m = maxAttempts + 1 by omega)
      rw [decisive_not_answered hans, List.range'_succ, webhookLoop, if_neg hne,
        if_neg (by simp [hans]), if_neg (by simpa [sleeps] using hlast), ih (by omega) hs']
      have hk : decisive maxAttempts reply (List.range' (a + 1) m) + 1 - a =
          decisive maxAttempts reply (List.range' (a + 1) m) + 1 - (a + 1) + 1 := by omega
      rw [hk, List.range'_succ]
      simp [Db.logAttempts, logRow]

/-- **A loop that is not smooth** ends with an exception. -/
theorem smooth_of_returned {db : Db} (h : a + m = maxAttempts + 1)
    (hret : (webhookLoop n url maxAttempts reply (List.range' a m) db).returned = true) :
    Smooth maxAttempts reply a m := by
  induction m generalizing a db with
  | zero =>
    have hk : decisive maxAttempts reply (List.range' a 0) = maxAttempts := rfl
    refine ⟨fun x hx hle => ?_, fun x hx hlt => ?_⟩ <;> omega
  | succ m ih =>
    rw [List.range'_succ, webhookLoop] at hret
    split at hret
    · cases hret
    · rename_i hne
      cases hans : (reply a).answered with
      | true =>
        refine ⟨fun x hx hle => ?_, fun x hx hlt => ?_⟩
        · rw [decisive_answered hans] at hle
          rwa [le_antisymm hle hx]
        · rw [decisive_answered hans] at hlt
          omega
      | false =>
        rw [if_neg (by simp [hans])] at hret
        split at hret
        · cases hret
        · rename_i hsleep
          exact (smooth_succ h hans).mpr ⟨hne, by simpa [sleeps] using hsleep, ih (by omega) hret⟩

/-! ### Exactly when -/

theorem fireWebhookCall_eq {db : Db} (hurl : n.callbackUrl = some url) (hne : url ≠ "") :
    fireWebhookCall maxAttempts n reply db =
      webhookLoop n url maxAttempts reply (List.range' 1 maxAttempts) db := by
  rw [fireWebhookCall, hurl]
  exact if_neg hne

theorem audited_iff_smooth {db : Db} (hurl : n.callbackUrl = some url) (hne : url ≠ "") :
    WebhookAudited maxAttempts n url reply db ↔ Smooth maxAttempts reply 1 maxAttempts := by
  rw [WebhookAudited, fireWebhookCall_eq hurl hne]
  constructor
  · intro h
    have hret : (webhookLoop n url maxAttempts reply (List.range' 1 maxAttempts) db).returned =
        true := by rw [h]
    exact smooth_of_returned (Nat.add_comm 1 maxAttempts) hret
  · intro h
    rw [loop_of_smooth (Nat.add_comm 1 maxAttempts) h]
    simp

/-- **Every attempt is logged and the call returns exactly when** the HTTP client
raises nothing but `httpx.HTTPError` up to the decisive attempt, and that is not
after attempt 1024. -/
theorem webhook_audited {db : Db} (hurl : n.callbackUrl = some url) (hne : url ≠ "")
    (hmax : 1 ≤ maxAttempts) : WebhookAudited maxAttempts n url reply db ↔
      (∀ a, 1 ≤ a → a ≤ decisive maxAttempts reply (List.range' 1 maxAttempts) →
        reply a ≠ .otherError) ∧
      decisive maxAttempts reply (List.range' 1 maxAttempts) ≤ 1024 := by
  have hle := (le_decisive reply (Nat.add_comm 1 maxAttempts)).2 hmax
  rw [audited_iff_smooth hurl hne]
  refine ⟨fun h => ⟨h.caught, ?_⟩, fun h => ⟨h.1, fun x _ hx => lt_of_lt_of_le hx h.2⟩⟩
  by_contra hlong
  exact absurd (h.slept 1024 (by decide) (not_le.mp hlong)) (lt_irrefl _)

/-- The receiver fails once and answers at the second attempt. -/
theorem webhook_audited_twice : WebhookAudited 3 ⟨7, some "http://example.com/", .sent⟩
    "http://example.com/" (fun a => if a = 1 then .httpError else .response 200)
    State.empty.db := by
  refine (webhook_audited rfl (by decide) (by decide)).mpr ⟨fun a _ _ => ?_, by decide⟩
  split <;> simp

/-- The port of the URL is no number: `httpx.InvalidURL` at the first attempt. -/
theorem not_webhook_audited : ¬ WebhookAudited 3 ⟨7, some "http://example.com:port/", .failed⟩
    "http://example.com:port/" (fun _ => .otherError) State.empty.db := by
  rw [audited_iff_smooth rfl (by decide)]
  exact fun h => h.caught 1 le_rfl (by decide) rfl

/-! ### Attempts and `await`s -/

/-- Only worker `w` runs, and it may be raised an exception. -/
def workerAlone (w : WorkerId) (_ : State) : Action → Bool
  | .worker v (.run _) | .worker v (.raise _) => decide (v = w)
  | _ => false

variable {cfg : Settings} {w : WorkerId}

theorem path_alone {s t : State} {h : List Event} (p : Lts.Path (system cfg) (onlyWorker w) s h t) :
    Lts.Path (system cfg) (workerAlone w) s h t := by
  refine p.mono (fun _ a ha => ?_)
  cases a with
  | worker v c =>
    cases c with
    | run env => exact ha
    | _ => cases ha
  | _ => cases ha

theorem path_of_escape (cfg : Settings) {s : State} {attempt : Nat}
    (hpc : (s.workers w).pc = .firing n attempt) :
    ∃ t, t.toShared = s.toShared ∧ (t.workers w).pc = .joining ∧
      Lts.Path (system cfg) (workerAlone w) s [] t := by
  refine ⟨(s.setShared s.toShared).setWorker w ((s.workers w).goto .joining), rfl, ?_, ?_⟩
  · rw [State.setWorker_workers, Function.update_self]
    rfl
  · refine Lts.Path.single (a := .worker w (.raise .begun)) (by simp [workerAlone]) ?_
    refine Option.map_eq_some_iff.mpr ⟨(s.toShared, (s.workers w).goto .joining, []), ?_, rfl⟩
    refine Option.map_eq_some_iff.mpr ⟨(s.toShared, .joining), ?_, rfl⟩
    rw [hpc]
    rfl

/-- Where a worker is after an attempt. -/
def WorkerPc.afterAttempt (n : Notice) : Option Nat → WorkerPc
  | none => .joining
  | some attempt => .firing n attempt

theorem path_of_attempt {s : State} {env : Env} {attempt : Nat} {db : Db} {next : Option Nat}
    (hpc : (s.workers w).pc = .firing n attempt)
    (hf : fireWebhook cfg env s.db n attempt = (db, next)) :
    ∃ t, t.toShared = { s.toShared with db := db } ∧ (t.workers w).pc = .afterAttempt n next ∧
      Lts.Path (system cfg) (workerAlone w) s [] t := by
  have hnext : workerNext cfg w env s.toShared (s.workers w).pc =
      some ({ s.toShared with db := db }, .afterAttempt n next, []) := by
    rw [hpc]
    simp only [workerNext, hf]
    cases next <;> rfl
  obtain ⟨t, hsh, ht, p⟩ := path_of_workerNext hnext
  exact ⟨t, hsh, ht, path_alone p⟩

/-- An attempt of the system writes the row that the loop writes. -/
theorem fireWebhook_reply (reply : Nat → Reply) {db : Db} (hurl : n.callbackUrl = some url)
    (hne : url ≠ "") (hle : a ≤ cfg.webhookMaxAttempts) :
    fireWebhook cfg { http := (reply a).httpStatus } db n a =
      ({ db with webhookLog := db.webhookLog ++
          [⟨n.jobId, url, n.status, (reply a).httpStatus, a⟩] },
        if (reply a).answered then none
        else if a < cfg.webhookMaxAttempts then some (a + 1) else none) := by
  simp only [fireWebhook, hurl]
  rw [if_neg (not_or.mpr ⟨hne, by omega⟩)]
  rw [show (reply a).httpStatus.any (fun status => decide (status < 500)) = (reply a).answered
    from rfl]
  by_cases hans : (reply a).answered = true
  · rw [if_pos hans, if_pos hans]
  · rw [if_neg hans, if_neg hans]
    split <;> rfl

/-- **The attempts of a call are the attempts of its worker**, one `await` each. -/
theorem path_of_webhookLoop (hurl : n.callbackUrl = some url) (hne : url ≠ "") {s : State}
    (hpos : 0 < m) (hm : a + m = cfg.webhookMaxAttempts + 1)
    (hpc : (s.workers w).pc = .firing n a) : ∃ t h, Lts.Path (system cfg) (workerAlone w) s h t ∧
      t.toShared = { s.toShared with
        db := (webhookLoop n url cfg.webhookMaxAttempts reply (List.range' a m) s.db).db } ∧
      (t.workers w).pc = .joining := by
  induction m generalizing a s with
  | zero => cases hpos
  | succ m ih =>
    rw [List.range'_succ, webhookLoop]
    split
    · obtain ⟨t, hsh, ht, p⟩ := path_of_escape cfg hpc
      exact ⟨t, _, p, hsh, ht⟩
    · obtain ⟨t, hsh, ht, p⟩ := path_of_attempt hpc
        (fireWebhook_reply reply hurl hne (show a ≤ cfg.webhookMaxAttempts by omega))
      split
      · rename_i hans
        rw [if_pos hans] at ht
        exact ⟨t, _, p, hsh, ht⟩
      · rename_i hans
        rw [if_neg hans] at ht
        by_cases hlt : a < cfg.webhookMaxAttempts
        · rw [if_pos hlt] at ht
          split
          · obtain ⟨u, hsu, hu, q⟩ := path_of_escape cfg ht
            exact ⟨u, _, p.trans q, hsu.trans hsh, hu⟩
          · obtain ⟨u, h, q, hsu, hu⟩ := ih (by omega) (by omega) ht
            refine ⟨u, _, p.trans q, ?_, hu⟩
            rw [hsu, hsh]
        · rw [if_neg hlt] at ht
          obtain rfl : m = 0 := by omega
          rw [if_neg (fun hc => hlt hc.1)]
          exact ⟨t, _, p, hsh, ht⟩

end NotifyQueue
