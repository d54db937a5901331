import Mathlib.Tactic.Linarith
import NotifyQueue.Job.Calls

/-!
# Heartbeats through an outage

The heartbeat task writes at its start and then once an interval.  A write that
raises ends the task, so an outage that is too short to matter by itself, but in
which one write falls, stops the heartbeat for the rest of the delivery
(`keeps_beating`).  If it is the first write that fails, the heartbeat stays at the
instant of the claim, which is earlier than the start of the task.

`Beaten` is the invariant of the iterations before that: the next one is due,
and the row has the heartbeat of the last one.  An iteration is a step of the
system (`path_of_heartbeat`).
-/

namespace NotifyQueue

open KeyedTable

/-- No outage is as long as `bound`. -/
def Delivery.ShortOutages (d : Delivery) (bound : Time) : Prop :=
  ∀ a b, a ≤ b → (∀ t, a ≤ t → t ≤ b → d.down t = true) → b - a < bound

/-- The job was claimed at `claimed` by the worker that now starts its delivery. -/
structure Delivery.ClaimedAt (d : Delivery) (claimed : Time) (db : Db) : Prop where
  le : claimed ≤ d.start
  row : ∃ r, db.row d.id = some r ∧ r.status = .claimed ∧ r.workerId = some d.worker ∧
    r.heartbeatAt = some claimed

/-- The heartbeat task at the time `t`, after the iteration that begins there if any. -/
def Delivery.heartAt (d : Delivery) (interval : Time) (db : Db) (t : Time) : Heart :=
  heartbeatLoop interval d (((t - d.start) / interval).toNat + 1) (d.heart db)

/-- A write is attempted once an interval until `stop` is set, and until then the
heartbeat is younger than the timeout and the job is not taken for stale. -/
structure KeepsBeating (interval timeout : Time) (d : Delivery) (db : Db) : Prop where
  attempts : ∀ n : Nat, d.start + n * interval < d.stop →
    (heartbeatLoop interval d (n + 1) (d.heart db)).attempts =
      (List.range (n + 1)).reverse.map (fun k : Nat => d.start + k * interval)
  young : ∀ t, d.start ≤ t → t < d.stop → ∃ r b,
    (d.heartAt interval db t).db.row d.id = some r ∧ r.heartbeatAt = some b ∧ t - b < timeout ∧
    (recoverStaleClaimed t timeout).applies r = false

variable {interval timeout claimed : Time} {d : Delivery} {db : Db} {h : Heart} {n : Nat}

/-! ### One iteration -/

theorem heartbeatStep_ended (hn : h.next = none) : heartbeatStep interval d h = h := by
  unfold heartbeatStep
  rw [hn]

theorem heartbeatStep_due {t : Time} (hn : h.next = some t) : heartbeatStep interval d h =
    if d.stop ≤ t then { h with next := none }
    else if d.down t then ⟨{ h.db with now := t }, none, t :: h.attempts⟩
    else ⟨({ h.db with now := t } : Db).update (updateHeartbeat t d.id d.worker),
      some (t + interval), t :: h.attempts⟩ := by
  unfold heartbeatStep
  rw [hn]

/-! ### The iterations before a failed write -/

/-- The heartbeat after `n` iterations that have written. -/
def Delivery.beat (d : Delivery) (interval claimed : Time) : Nat → Time
  | 0 => claimed
  | n + 1 => d.start + n * interval

/-- After `n` iterations that have written, the next is due and the heartbeat is
that of the last. -/
structure Beaten (interval claimed : Time) (d : Delivery) (n : Nat) (h : Heart) : Prop where
  next : h.next = some (d.start + n * interval)
  attempts : h.attempts = (List.range n).reverse.map (fun k : Nat => d.start + k * interval)
  row : ∃ r, h.db.row d.id = some r ∧ r.status = .claimed ∧ r.workerId = some d.worker ∧
    r.heartbeatAt = some (d.beat interval claimed n)

theorem beaten_zero (hc : d.ClaimedAt claimed db) : Beaten interval claimed d 0 (d.heart db) := by
  refine ⟨?_, rfl, hc.row⟩
  simp [Delivery.heart]

theorem Beaten.attempts_step (hb : Beaten interval claimed d n h)
    (hstop : d.start + n * interval < d.stop) :
    (heartbeatStep interval d h).attempts =
      (List.range (n + 1)).reverse.map (fun k : Nat => d.start + k * interval) := by
  rw [List.range_succ, List.reverse_append, List.map_append, ← hb.attempts]
  rw [heartbeatStep_due hb.next, if_neg (not_le.mpr hstop)]
  split <;> rfl

/-- **A write that succeeds** keeps the task going. -/
theorem Beaten.succ (hb : Beaten interval claimed d n h)
    (hstop : d.start + n * interval < d.stop)
    (hup : d.down (d.start + n * interval) = false) :
    Beaten interval claimed d (n + 1) (heartbeatStep interval d h) := by
  refine ⟨?_, hb.attempts_step hstop, ?_⟩ <;>
    rw [heartbeatStep_due hb.next, if_neg (not_le.mpr hstop), if_neg (by simp [hup])]
  · rw [Nat.cast_succ, add_mul, one_mul, add_assoc]
  · obtain ⟨r, hr, hst, hw, -⟩ := hb.row
    have hid : r.id = d.id := Table.key_of_find? hr
    have hr' : ({ h.db with now := d.start + n * interval } : Db).row d.id = some r := hr
    refine ⟨{ r with
      heartbeatAt := some (d.start + n * interval), updatedAt := d.start + n * interval }, ?_,
      hst, hw, rfl⟩
    rw [row_update, hr', Option.map_some, Update.apply_of_applies]
    · rfl
    · simp [updateHeartbeat, hid, hst, hw, sqlEq]

/-- **A write that fails** leaves the row with the heartbeat before. -/
theorem Beaten.fail (hb : Beaten interval claimed d n h)
    (hstop : d.start + n * interval < d.stop)
    (hdown : d.down (d.start + n * interval) = true) (id : JobId) :
    (heartbeatStep interval d h).db.row id = h.db.row id := by
  rw [heartbeatStep_due hb.next, if_neg (not_le.mpr hstop), if_pos hdown]
  rfl

theorem iteration_mono (hI : 0 < interval) (d : Delivery) {m n : Nat} (hmn : m ≤ n) :
    d.start + m * interval ≤ d.start + n * interval :=
  add_le_add_right (mul_le_mul_of_nonneg_right (Int.ofNat_le.mpr hmn) hI.le) d.start

/-- **As long as no write fails the task goes on.** -/
theorem beaten_loop (hI : 0 < interval) (hc : d.ClaimedAt claimed db)
    (hup : ∀ k : Nat, d.start + (k + 1 : Nat) * interval < d.stop →
      d.down (d.start + k * interval) = false) (hstop : d.start + n * interval < d.stop) :
    Beaten interval claimed d n (heartbeatLoop interval d n (d.heart db)) := by
  induction n with
  | zero => exact beaten_zero hc
  | succ n ih =>
    have hlt := lt_of_le_of_lt (iteration_mono hI d n.le_succ) hstop
    exact (ih hlt).succ hlt (hup n hstop)

/-! ### Exactly when -/

theorem next_loop {t : Time} (h : (heartbeatLoop interval d n (d.heart db)).next = some t) :
    t = d.start + n * interval := by
  induction n generalizing t with
  | zero =>
    cases h
    simp
  | succ n ih =>
    rw [heartbeatLoop] at h
    cases hnext : (heartbeatLoop interval d n (d.heart db)).next with
    | none =>
      rw [heartbeatStep_ended hnext, hnext] at h
      cases h
    | some t' =>
      rw [heartbeatStep_due hnext] at h
      split at h
      · cases h
      · split at h <;> cases h
        rw [ih hnext, Nat.cast_succ, add_mul, one_mul, add_assoc]

theorem up_of_attempts (db : Db)
    (h₁ : (heartbeatLoop interval d (n + 1) (d.heart db)).attempts.length = n + 1)
    (h₂ : (heartbeatLoop interval d (n + 2) (d.heart db)).attempts.length = n + 2) :
    d.down (d.start + n * interval) = false := by
  by_contra hdown
  rw [Bool.not_eq_false] at hdown
  have hended : (heartbeatLoop interval d (n + 1) (d.heart db)).next = none := by
    rw [heartbeatLoop]
    cases hnext : (heartbeatLoop interval d n (d.heart db)).next with
    | none => rw [heartbeatStep_ended hnext, hnext]
    | some t =>
      rw [heartbeatStep_due hnext]
      split
      · rfl
      · rw [next_loop hnext, if_pos hdown]
  have hsame : heartbeatLoop interval d (n + 2) (d.heart db) =
      heartbeatLoop interval d (n + 1) (d.heart db) := heartbeatStep_ended hended
  rw [hsame, h₁] at h₂
  omega

theorem stale_iff_old {r : Job} {b t : Time} (hst : r.status = .claimed)
    (hb : r.heartbeatAt = some b) :
    (recoverStaleClaimed t timeout).applies r = true ↔ timeout < t - b := by
  simp only [recoverStaleClaimed, hst, hb, Option.any_some, Bool.and_eq_true, decide_eq_true_eq,
    true_and]
  constructor <;> intro h <;> linarith

/-- **The attempts go on until `stop` exactly when** no write fails but the last. -/
theorem attempts_iff (hI : 0 < interval) (hc : d.ClaimedAt claimed db) :
    (∀ n : Nat, d.start + n * interval < d.stop →
      (heartbeatLoop interval d (n + 1) (d.heart db)).attempts =
        (List.range (n + 1)).reverse.map (fun k : Nat => d.start + k * interval)) ↔
    ∀ k : Nat, d.start + (k + 1 : Nat) * interval < d.stop →
      d.down (d.start + k * interval) = false := by
  constructor
  · intro h k hk
    have hk' := lt_of_le_of_lt (iteration_mono hI d k.le_succ) hk
    refine up_of_attempts db ?_ ?_
    · rw [h k hk']
      simp
    · rw [h (k + 1) hk]
      simp
  · intro h n hn
    exact (beaten_loop hI hc h hn).attempts_step hn

theorem latest_iteration (hI : 0 < interval) {t : Time} (ht : d.start ≤ t) :
    let n := ((t - d.start) / interval).toNat
    d.start + n * interval ≤ t ∧ t < d.start + (n + 1 : Nat) * interval := by
  have hnonneg : 0 ≤ (t - d.start) / interval := Int.ediv_nonneg (by linarith) hI.le
  have hcast : (((t - d.start) / interval).toNat : Int) = (t - d.start) / interval :=
    Int.toNat_of_nonneg hnonneg
  have hle := Int.ediv_mul_le (t - d.start) hI.ne'
  have hlt := Int.lt_ediv_add_one_mul_self (t - d.start) hI
  dsimp only
  rw [Nat.cast_succ, hcast]
  constructor <;> linarith

/-- The state of the task at a time, from that before the latest iteration. -/
theorem heartAt_eq (db : Db) (hI : 0 < interval) {t : Time} (ht : d.start ≤ t) : ∃ n : Nat,
    d.start + n * interval ≤ t ∧ t < d.start + (n + 1 : Nat) * interval ∧
      d.heartAt interval db t =
        heartbeatStep interval d (heartbeatLoop interval d n (d.heart db)) :=
  ⟨_, (latest_iteration hI ht).1, (latest_iteration hI ht).2, rfl⟩

/-- **How old the heartbeat is**: less than an interval if the last write has not
failed, less than two if it has and was not the first, and otherwise as old as the
claim. -/
theorem heartbeat_age (hI : 0 < interval) (hc : d.ClaimedAt claimed db)
    (hup : ∀ k : Nat, d.start + (k + 1 : Nat) * interval < d.stop →
      d.down (d.start + k * interval) = false) {t : Time} (ht : d.start ≤ t) (hstop : t < d.stop) :
    ∃ r b, (d.heartAt interval db t).db.row d.id = some r ∧ r.status = .claimed ∧
      r.heartbeatAt = some b ∧
      ((d.start ≤ b ∧ t - b < interval) ∨ (t - b < 2 * interval ∧ ∃ x, d.down x = true) ∨
        (b = claimed ∧ d.down d.start = true)) := by
  obtain ⟨n, hle, hlt, hheart⟩ := heartAt_eq db hI ht
  have hstop' : d.start + n * interval < d.stop := lt_of_le_of_lt hle hstop
  have hb := beaten_loop hI hc hup hstop'
  rw [Nat.cast_succ, add_mul, one_mul] at hlt
  rw [hheart]
  cases hdown : d.down (d.start + n * interval) with
  | false =>
    obtain ⟨r, hr, hst, -, hbeat⟩ := (hb.succ hstop' hdown).row
    have hnonneg := mul_nonneg (Int.natCast_nonneg n) hI.le
    refine ⟨r, _, hr, hst, hbeat, Or.inl ⟨?_, ?_⟩⟩ <;> rw [Delivery.beat] <;> linarith
  | true =>
    obtain ⟨r, hr, hst, -, hbeat⟩ := hb.row
    rw [← hb.fail hstop' hdown] at hr
    refine ⟨r, _, hr, hst, hbeat, Or.inr ?_⟩
    cases n with
    | zero =>
      rw [Nat.cast_zero, zero_mul, add_zero] at hdown
      exact Or.inr ⟨rfl, hdown⟩
    | succ m =>
      refine Or.inl ⟨?_, _, hdown⟩
      rw [Nat.cast_succ, add_mul, one_mul] at hlt
      rw [Delivery.beat]
      linarith

/-- In the first interval the heartbeat is that of the start, or of the claim if the
first write has failed. -/
theorem first_heartbeat (hc : d.ClaimedAt claimed db) (hstop : d.start < d.stop)
    {t : Time} (ht : d.start ≤ t) (hfirst : t < d.start + interval) :
    ∃ r, (d.heartAt interval db t).db.row d.id = some r ∧
      r.heartbeatAt = some (if d.down d.start then claimed else d.start) := by
  have hzero : (t - d.start) / interval = 0 :=
    Int.ediv_eq_zero_of_lt (by linarith) (by linarith)
  have hheart : d.heartAt interval db t = heartbeatStep interval d (d.heart db) := by
    rw [Delivery.heartAt, hzero]
    rfl
  have hb : Beaten interval claimed d 0 (d.heart db) := beaten_zero hc
  have hstart : d.start + (0 : Nat) * interval = d.start := by simp
  have hstop' : d.start + (0 : Nat) * interval < d.stop := hstart.symm ▸ hstop
  rw [hheart]
  cases hdown : d.down d.start with
  | false =>
    obtain ⟨r, hr, -, -, hbeat⟩ := (hb.succ hstop' (by rw [hstart, hdown])).row
    exact ⟨r, hr, by rw [hbeat, Delivery.beat, hstart]; rfl⟩
  | true =>
    obtain ⟨r, hr, -, -, hbeat⟩ := hb.row
    rw [← hb.fail hstop' (by rw [hstart, hdown])] at hr
    exact ⟨r, hr, hbeat⟩

/-- The timeout leaves room for the heartbeats that are written: for an interval, or
for the whole delivery, and from the claim on if the first write fails. -/
structure RoomFor (interval timeout claimed : Time) (d : Delivery) : Prop where
  interval : min interval (d.stop - d.start) ≤ timeout
  claimed : d.down d.start = true → d.stop - claimed ≤ timeout

/-- A heartbeat that is young all the time has had room. -/
theorem room_of_young (hI : 0 < interval) (hc : d.ClaimedAt claimed db)
    (hup : ∀ k : Nat, d.start + (k + 1 : Nat) * interval < d.stop →
      d.down (d.start + k * interval) = false) (hstop : d.start < d.stop)
    (hyoung : ∀ t, d.start ≤ t → t < d.stop → ∃ r b,
      (d.heartAt interval db t).db.row d.id = some r ∧ r.heartbeatAt = some b ∧ t - b < timeout) :
    RoomFor interval timeout claimed d := by
  have hfirst : ∀ t, d.start ≤ t → t < d.stop → t < d.start + interval →
      t - (if d.down d.start then claimed else d.start) < timeout := by
    intro t ht hlt hin
    obtain ⟨r, b, hr, hb, hage⟩ := hyoung t ht hlt
    obtain ⟨r', hr', hb'⟩ := first_heartbeat hc hstop ht hin
    cases hr.symm.trans hr'
    cases hb.symm.trans hb'
    exact hage
  have hle : (if d.down d.start then claimed else d.start) ≤ d.start := by
    split
    · exact hc.le
    · exact le_rfl
  constructor
  · by_contra hno
    rw [not_le, lt_min_iff] at hno
    -- at the end of the timeout there has been no write but the first
    have hmax : max timeout 0 < interval ∧ max timeout 0 < d.stop - d.start :=
      ⟨max_lt hno.1 hI, max_lt hno.2 (by linarith)⟩
    have hage := hfirst (d.start + max timeout 0) (by linarith [le_max_right timeout 0])
      (by linarith) (by linarith)
    linarith [le_max_left timeout 0]
  · intro hdown
    -- the instant before `stop` is in the first interval
    have hone : d.stop ≤ d.start + interval := by
      by_contra hno
      have hup₀ := hup 0 (by simpa using not_le.mp hno)
      rw [Nat.cast_zero, zero_mul, add_zero, hdown] at hup₀
      cases hup₀
    have hage := hfirst (d.stop - 1) (Int.le_sub_one_of_lt hstop) (by linarith) (by linarith)
    rw [if_pos hdown] at hage
    simp only [Time] at *
    omega

/-- **The heartbeat survives exactly when** no write fails but the last one before
`stop`, and the timeout has room for the heartbeats that are written. -/
theorem keeps_beating (hI : 0 < interval) (hc : d.ClaimedAt claimed db)
    (hout : d.ShortOutages (timeout - 2 * interval)) : KeepsBeating interval timeout d db ↔
      (∀ k : Nat, d.start + (k + 1 : Nat) * interval < d.stop →
        d.down (d.start + k * interval) = false) ∧
      (d.start < d.stop → RoomFor interval timeout claimed d) := by
  constructor
  · intro h
    have hup := (attempts_iff hI hc).mp h.attempts
    refine ⟨hup, fun hstop => room_of_young hI hc hup hstop (fun t ht hlt => ?_)⟩
    obtain ⟨r, b, hr, hb, hage, -⟩ := h.young t ht hlt
    exact ⟨r, b, hr, hb, hage⟩
  · rintro ⟨hup, hroom⟩
    refine ⟨(attempts_iff hI hc).mpr hup, fun t ht hstop => ?_⟩
    obtain ⟨r, b, hr, hst, hb, hage⟩ := heartbeat_age hI hc hup ht hstop
    obtain ⟨hmin, hclaim⟩ := hroom (lt_of_le_of_lt ht hstop)
    have hyoung : t - b < timeout := by
      rcases hage with ⟨hstart, hage⟩ | ⟨hage, x, hx⟩ | ⟨rfl, hdown⟩
      · rcases min_le_iff.mp hmin with hle | hle <;> linarith
      · have := hout x x le_rfl (fun y hy hy' => by rwa [le_antisymm hy' hy])
        linarith
      · have := hclaim hdown
        linarith
    refine ⟨r, b, hr, hb, hyoung, ?_⟩
    rw [← Bool.not_eq_true, stale_iff_old hst hb]
    exact not_lt.mpr hyoung.le

/-- Every delivery keeps its heartbeat through outages that are short enough. -/
def AlwaysBeats (interval timeout : Time) : Prop :=
  ∀ d claimed db, d.ClaimedAt claimed db → d.ShortOutages (timeout - 2 * interval) →
    KeepsBeating interval timeout d db

/-- Job `7`, claimed by worker `1` at the time `0`. -/
def claimedDb : Db where
  now := 0
  jobs := ⟨[{ insertJob {} 0 7 plainJob with
    status := .claimed, workerId := some 1, claimedAt := some 0, heartbeatAt := some 0 }],
    by decide⟩
  deadLetterQueue := []
  webhookLog := []

/-- A delivery of one minute from the second `1` on, with the database down at the
instant `x`. -/
def downAt (x : Time) : Delivery := ⟨7, 1, second, 61 * second, fun t => decide (t = x)⟩

theorem claimedAt_downAt (x : Time) : (downAt x).ClaimedAt 0 claimedDb :=
  ⟨show (0 : Int) ≤ 1000000 by decide, _, rfl, rfl, rfl, rfl⟩

theorem shortOutages_downAt (x : Time) {bound : Time} (hb : 0 < bound) :
    (downAt x).ShortOutages bound := by
  intro a b hab hall
  have ha : a = x := of_decide_eq_true (hall a le_rfl hab)
  have hb' : b = x := of_decide_eq_true (hall b hab le_rfl)
  rw [ha, hb', sub_self]
  exact hb

/-- The write of the second `51` fails, and no other is due before the end. -/
theorem keeps_beating_last :
    KeepsBeating (10 * second) (30 * second) (downAt (51 * second)) claimedDb := by
  refine (keeps_beating (by decide) (claimedAt_downAt _)
    (shortOutages_downAt _ (by decide))).mpr
      ⟨fun k hk => ?_, fun _ => ⟨by decide, fun hdown => ?_⟩⟩
  · have hlt : (1000000 : Int) + (k + 1 : Nat) * (10 * 1000000) < 61 * 1000000 := hk
    have hne : (1000000 : Int) + k * (10 * 1000000) ≠ 51 * 1000000 := by omega
    exact decide_eq_false hne
  · cases hdown

/-- The write of the second `11` fails, and at the second `45` the job is stale. -/
theorem not_always_beats : ¬ AlwaysBeats (10 * second) (30 * second) := by
  intro hall
  have hstale : (((downAt (11 * second)).heartAt (10 * second) claimedDb (45 * second)).db.row
      7).map (recoverStaleClaimed (45 * second) (30 * second)).applies = some true := by
    decide +kernel
  obtain ⟨r, b, hr, -, -, hfresh⟩ := (hall (downAt (11 * second)) 0 claimedDb
    (claimedAt_downAt _) (shortOutages_downAt _ (by decide))).young (45 * second) (by decide)
    (by decide)
  rw [show (downAt (11 * second)).id = 7 from rfl] at hr
  rw [hr, Option.map_some, hfresh] at hstale
  cases hstale

/-! ### Iterations and steps -/

/-- Only the heartbeat task of worker `w` acts, and the clock goes on. -/
def beatsOnly (w : WorkerId) (s : State) : Action → Bool
  | .worker v .beat | .worker v .loseHeartbeat => decide (v = w)
  | .tick t _ => decide (s.db.now ≤ t)
  | _ => false

variable {cfg : Settings}

theorem path_of_tick (cfg : Settings) {s : State} {t : Time} (ht : s.db.now ≤ t) (w : WorkerId) :
    Lts.Path (system cfg) (beatsOnly w) s [] (s.setShared (s.toShared.setClocks t t)) := by
  have hok : beatsOnly w s (.tick t t) = true := decide_eq_true ht
  exact Lts.Path.single hok rfl

variable {s : State} {w : WorkerId} {id : JobId}

theorem path_of_beat (cfg : Settings) (hh : (s.workers w).heartbeat = some id) : ∃ t,
    Lts.Path (system cfg) (beatsOnly w) s [] t ∧
      t.db = s.db.update (updateHeartbeat s.db.now id w) ∧ (t.workers w).heartbeat = some id := by
  refine ⟨(s.setShared { s.toShared with
    db := s.db.update (updateHeartbeat s.db.now id w) }).setWorker w (s.workers w), ?_, rfl, ?_⟩
  · have hok : beatsOnly w s (.worker w .beat) = true := decide_eq_true rfl
    refine Lts.Path.single hok ?_
    simp only [system, step, workerStep, hh, Option.map_some]
  · rw [State.setWorker_workers, Function.update_self]
    exact hh

theorem path_of_lose (cfg : Settings) (hh : (s.workers w).heartbeat = some id) : ∃ t,
    Lts.Path (system cfg) (beatsOnly w) s [] t ∧ t.db = s.db := by
  refine ⟨(s.setShared s.toShared).setWorker w { s.workers w with heartbeat := none }, ?_, rfl⟩
  have hok : beatsOnly w s (.worker w .loseHeartbeat) = true := decide_eq_true rfl
  refine Lts.Path.single hok ?_
  simp only [system, step, workerStep, hh, Option.map_some]

/-- **Every iteration is a step of the system**, after the clock has gone on to it. -/
theorem path_of_heartbeat (hI : 0 ≤ interval) (hnow : s.db.now ≤ d.start)
    (hh : (s.workers d.worker).heartbeat = some d.id) : ∀ n, ∃ t h,
    Lts.Path (system cfg) (beatsOnly d.worker) s h t ∧
      t.db = (heartbeatLoop interval d n (d.heart s.db)).db ∧
      ∀ x, (heartbeatLoop interval d n (d.heart s.db)).next = some x →
        (t.workers d.worker).heartbeat = some d.id ∧ t.db.now ≤ x := by
  intro n
  induction n with
  | zero => exact ⟨s, [], .refl, rfl, fun x hx => (by cases hx; exact ⟨hh, hnow⟩)⟩
  | succ n ih =>
    obtain ⟨t, h, p, hdb, hdue⟩ := ih
    rw [heartbeatLoop]
    generalize heartbeatLoop interval d n (d.heart s.db) = heart at hdb hdue
    cases hx : heart.next with
    | none =>
      rw [heartbeatStep_ended hx]
      exact ⟨t, h, p, hdb, hdue⟩
    | some x =>
      rw [heartbeatStep_due hx]
      obtain ⟨hbeat, hle⟩ := hdue x hx
      split
      · exact ⟨t, h, p, hdb, fun y hy => (by cases hy)⟩
      · have q := p.trans (path_of_tick cfg hle d.worker)
        have hdb' : (t.setShared (t.toShared.setClocks x x)).db = { heart.db with now := x } := by
          rw [← hdb]
          rfl
        rw [← hdb']
        split
        · obtain ⟨u, q', hu⟩ := path_of_lose cfg
            (s := t.setShared (t.toShared.setClocks x x)) hbeat
          exact ⟨u, _, q.trans q', hu, fun y hy => (by cases hy)⟩
        · obtain ⟨u, q', hu, hbeat'⟩ := path_of_beat cfg
            (s := t.setShared (t.toShared.setClocks x x)) hbeat
          refine ⟨u, _, q.trans q', hu, fun y hy => ?_⟩
          cases hy
          rw [hu]
          exact ⟨hbeat', le_add_of_nonneg_right hI⟩

end NotifyQueue
