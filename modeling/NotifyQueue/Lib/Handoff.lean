import Mathlib.Data.Finset.Card
import Mathlib.Data.List.Basic

/-!
# Handing over what was taken

A history lists the events of several parties, newest first.  Some events take
something up under a key (`opens`), some hand it over (`closes`).  `Handed` says
that each event that hands something over directly follows, among the events of
its party, one that took it up under the same key.

Two things follow.  `Handed.countP_le`: under each key no more is handed over
than was taken up, at any time.  `Handed.exists_source`: each event that hands
something over has an earlier event of its own that took it up.
-/

namespace Handoff

variable {π ε κ : Type*} [DecidableEq π]

/-- The latest event of a party. -/
def latest (p : π) (h : List (π × ε)) : Option ε :=
  (h.find? (fun x => decide (x.1 = p))).map Prod.snd

/-- What is handed over was taken up by the same party just before. -/
def Handed (opens closes : ε → Option κ) : List (π × ε) → Prop
  | [] => True
  | (p, x) :: h => (∀ k, closes x = some k → (latest p h).bind opens = some k) ∧
      Handed opens closes h

variable {opens closes : ε → Option κ} {h : List (π × ε)} {p q : π} {x : ε}

theorem latest_self (p : π) (x : ε) (h : List (π × ε)) : latest p ((p, x) :: h) = some x := by
  simp [latest]

theorem latest_other (hq : q ≠ p) : latest p ((q, x) :: h) = latest p h := by
  simp [latest, hq]

theorem latest_append_other {es : List ε} (hq : q ≠ p) :
    latest p (es.map (fun e => (q, e)) ++ h) = latest p h := by
  induction es with
  | nil => rfl
  | cons e es ih => rw [List.map_cons, List.cons_append, latest_other hq, ih]

theorem handed_append {es : List ε} (hes : ∀ e ∈ es, closes e = none)
    (hh : Handed opens closes h) : Handed opens closes (es.map (fun e => (p, e)) ++ h) := by
  induction es with
  | nil => exact hh
  | cons e es ih =>
    refine ⟨fun k hk => ?_, ih (fun e he => hes e (List.mem_cons_of_mem _ he))⟩
    rw [hes e List.mem_cons_self] at hk
    cases hk

/-- **The parties with a property, after one of them has changed.** -/
theorem exists_update {P : Finset π} {f g : π → Bool} (hP : ∀ q, q ∈ P ↔ f q = true) {p : π}
    (hg : ∀ q, q ≠ p → g q = f q) :
    ∃ P' : Finset π, (∀ q, q ∈ P' ↔ g q = true) ∧
      P'.card + (if f p then 1 else 0) = P.card + (if g p then 1 else 0) := by
  have hcard : (P.erase p).card + (if f p then 1 else 0) = P.card := by
    by_cases hp : f p = true
    · rw [if_pos hp]
      exact Finset.card_erase_add_one ((hP p).mpr hp)
    · rw [if_neg hp, Finset.erase_eq_of_notMem (fun h => hp ((hP p).mp h)), Nat.add_zero]
  by_cases hp : g p = true
  · refine ⟨insert p (P.erase p), fun q => ?_, ?_⟩
    · by_cases hq : q = p
      · subst hq
        simp [hp]
      · simp [hq, hP, hg q hq]
    · rw [Finset.card_insert_of_notMem (Finset.notMem_erase p P), if_pos hp]
      omega
  · refine ⟨P.erase p, fun q => ?_, by rw [if_neg hp]; exact hcard⟩
    by_cases hq : q = p
    · subst hq
      simp [hp]
    · simp [hq, hP, hg q hq]

/-! ### The source as part of the event -/

/-- Each event with what its party had taken up before it. -/
def sourced (opens : ε → Option κ) : List (π × ε) → List (π × (ε × Option κ))
  | [] => []
  | (p, x) :: h => (p, (x, (latest p h).bind opens)) :: sourced opens h

theorem latest_sourced (opens : ε → Option κ) (p : π) (h : List (π × ε)) :
    (latest p (sourced opens h)).map Prod.fst = latest p h := by
  induction h with
  | nil => rfl
  | cons y h ih =>
    obtain ⟨q, x⟩ := y
    rw [sourced]
    by_cases hq : q = p
    · subst hq
      rw [latest_self, latest_self]
      rfl
    · rw [latest_other hq, latest_other hq, ih]

theorem countP_sourced (f : π × ε → Bool) (h : List (π × ε)) :
    (sourced opens h).countP (fun y => f (y.1, y.2.1)) = h.countP f := by
  induction h with
  | nil => rfl
  | cons y h ih => rw [sourced, List.countP_cons, List.countP_cons, ih]

theorem mem_of_latest {e : ε} (he : latest p h = some e) : (p, e) ∈ h := by
  obtain ⟨⟨q, e'⟩, hf, rfl⟩ := Option.map_eq_some_iff.mp he
  have hq := List.find?_some hf
  obtain rfl : q = p := of_decide_eq_true hq
  exact List.mem_of_find?_eq_some hf

/-- An event and its source, read in two ways. -/
theorem Handed.exists_of_mem_sourced {κ' : Type*} {reads : ε → Option κ'} {k : κ} {k' : Option κ'}
    (hh : Handed opens closes h) (hy : (p, (x, k')) ∈ sourced reads h) (hx : closes x = some k) :
    ∃ e, (p, e) ∈ h ∧ opens e = some k ∧ reads e = k' := by
  induction h with
  | nil => cases hy
  | cons y h ih =>
    obtain ⟨q, z⟩ := y
    rw [sourced] at hy
    rcases List.mem_cons.mp hy with he | hy
    · cases he
      obtain ⟨e, he, ho⟩ := Option.bind_eq_some_iff.mp (hh.1 k hx)
      refine ⟨e, List.mem_cons_of_mem _ (mem_of_latest he), ho, ?_⟩
      rw [he, Option.bind_some]
    · obtain ⟨e, he, ho⟩ := ih hh.2 hy
      exact ⟨e, List.mem_cons_of_mem _ he, ho⟩

theorem handed_sourced (opens : ε → Option κ) (isClose : ε → Bool) (h : List (π × ε)) :
    Handed (fun y : ε × Option κ => opens y.1) (fun y => if isClose y.1 then y.2 else none)
      (sourced opens h) := by
  induction h with
  | nil => trivial
  | cons y h ih =>
    obtain ⟨p, x⟩ := y
    refine ⟨fun k hk => ?_, ih⟩
    dsimp only at hk
    split at hk
    · rw [← latest_sourced opens, Option.bind_map] at hk
      exact hk
    · cases hk

/-! ### Counts -/

section
variable [DecidableEq κ]

/-- With the parties that still have something under the key `k` to hand over. -/
theorem Handed.countP_add_card_le (hne : ∀ x, closes x ≠ none → opens x = none) (k : κ) :
    ∀ {h : List (π × ε)}, Handed opens closes h → ∀ P : Finset π,
      (∀ p ∈ P, (latest p h).bind opens = some k) →
      h.countP (fun x => decide (closes x.2 = some k)) + P.card ≤
        h.countP (fun x => decide (opens x.2 = some k)) := by
  intro h
  induction h with
  | nil =>
    intro _ P hP
    have hempty : P = ∅ := by
      refine Finset.eq_empty_of_forall_notMem (fun p hp => ?_)
      cases hP p hp
    simp [hempty]
  | cons y h ih =>
    intro hh P hP
    obtain ⟨q, x⟩ := y
    obtain ⟨hx, hh⟩ := hh
    have hq : q ∈ P → opens x = some k := by
      intro hq
      have hk := hP q hq
      rwa [latest_self, Option.bind_some] at hk
    have hother : ∀ p ∈ P, p ≠ q → (latest p h).bind opens = some k := by
      intro p hp hpq
      have hk := hP p hp
      rwa [latest_other (Ne.symm hpq)] at hk
    rw [List.countP_cons, List.countP_cons]
    by_cases hc : closes x = some k
    · -- the party of `x` had something to hand over until then
      have ho : opens x = none := hne x (by rw [hc]; exact Option.some_ne_none k)
      have hqP : q ∉ P := by
        intro hq'
        cases ho.symm.trans (hq hq')
      have hins := ih hh (insert q P) (by
        intro p hp
        rcases Finset.mem_insert.mp hp with rfl | hpP
        · exact hx k hc
        · exact hother p hpP (fun hpq => hqP (hpq ▸ hpP)))
      rw [Finset.card_insert_of_notMem hqP] at hins
      simp only [hc, ho, decide_true, if_true]
      omega
    · have herase := ih hh (P.erase q) (fun p hp =>
        hother p (Finset.mem_of_mem_erase hp) (Finset.ne_of_mem_erase hp))
      by_cases ho : opens x = some k
      · have hcard : P.card - 1 ≤ (P.erase q).card := Finset.pred_card_le_card_erase
        simp only [hc, ho, decide_true, decide_false, if_true]
        simp only [Bool.false_eq_true, if_false]
        omega
      · rw [Finset.erase_eq_of_notMem (fun hq' => ho (hq hq'))] at herase
        simpa only [hc, ho, decide_false, Bool.false_eq_true, if_false, Nat.add_zero] using herase

/-- **No more is handed over than was taken up**, under each key. -/
theorem Handed.countP_le (hh : Handed opens closes h)
    (hne : ∀ x, closes x ≠ none → opens x = none) (k : κ) :
    h.countP (fun x => decide (closes x.2 = some k)) ≤
      h.countP (fun x => decide (opens x.2 = some k)) := by
  have := hh.countP_add_card_le hne k ∅ (fun p hp => absurd hp (Finset.notMem_empty p))
  simpa using this

/-- **Under each key no more is handed over than was taken up**, for events that
carry their source. -/
theorem countP_sourced_le {isClose : ε → Bool} (hne : ∀ x, isClose x = true → opens x = none)
    (k : κ) (h : List (π × ε)) :
    (sourced opens h).countP (fun y => isClose y.2.1 && decide (y.2.2 = some k)) ≤
      h.countP (fun x => decide (opens x.2 = some k)) := by
  have hle := (handed_sourced opens isClose h).countP_le (fun y hy => ?_) k
  · rw [countP_sourced (fun x => decide (opens x.2 = some k))] at hle
    refine le_trans (le_of_eq (List.countP_congr (fun y _ => ?_))) hle
    cases isClose y.2.1 <;> simp
  · refine hne y.1 ?_
    by_contra hc
    exact hy (if_neg hc)

end

/-! ### Sources -/

/-- Where the latest event of `p` before position `i` stands. -/
def source (p : π) (h : List (π × ε)) (i : Nat) : Nat :=
  i + 1 + (h.drop (i + 1)).findIdx (fun x => decide (x.1 = p))

theorem Handed.drop (hh : Handed opens closes h) : ∀ i, Handed opens closes (h.drop i) := by
  induction h with
  | nil => intro i; rw [List.drop_nil]; exact hh
  | cons y h ih =>
    intro i
    cases i with
    | zero => exact hh
    | succ i => exact ih hh.2 i

theorem getElem?_findIdx_of_latest {e : ε} (hl : latest p h = some e) :
    h[h.findIdx (fun x => decide (x.1 = p))]? = some (p, e) := by
  induction h with
  | nil => cases hl
  | cons y h ih =>
    obtain ⟨q, x⟩ := y
    by_cases hq : q = p
    · subst hq
      rw [latest_self] at hl
      cases hl
      simp [List.findIdx_cons]
    · rw [latest_other hq] at hl
      simpa [List.findIdx_cons, hq] using ih hl

/-- Just before a party hands something over it has taken it up. -/
theorem Handed.latest_of_closes (hh : Handed opens closes h) {i : Nat} {k : κ}
    (hi : h[i]? = some (p, x)) (hx : closes x = some k) :
    ∃ e, latest p (h.drop (i + 1)) = some e ∧ opens e = some k := by
  have hd := hh.drop i
  obtain ⟨hlt, hget⟩ := List.getElem?_eq_some_iff.mp hi
  rw [List.drop_eq_getElem_cons hlt, hget] at hd
  exact Option.bind_eq_some_iff.mp (hd.1 k hx)

theorem Handed.getElem?_source (hh : Handed opens closes h) {i : Nat} {k : κ}
    (hi : h[i]? = some (p, x)) (hx : closes x = some k) :
    ∃ e, h[source p h i]? = some (p, e) ∧ opens e = some k := by
  obtain ⟨e, he, ho⟩ := hh.latest_of_closes hi hx
  refine ⟨e, ?_, ho⟩
  rw [source, ← List.getElem?_drop]
  exact getElem?_findIdx_of_latest he

theorem source_le {i j : Nat} (hij : i < j) (hj : h[j]? = some (p, x)) : source p h i ≤ j := by
  have hget : (h.drop (i + 1))[j - (i + 1)]? = some (p, x) := by
    rw [List.getElem?_drop, Nat.add_sub_of_le hij]
    exact hj
  obtain ⟨hlt, hget⟩ := List.getElem?_eq_some_iff.mp hget
  have hle : (h.drop (i + 1)).findIdx (fun y => decide (y.1 = p)) ≤ j - (i + 1) := by
    by_contra hgt
    have hnot := List.not_of_lt_findIdx (Nat.lt_of_not_le hgt)
    rw [hget, decide_eq_false_iff_not] at hnot
    exact hnot rfl
  rw [source]
  omega

theorem Handed.source_injective (hh : Handed opens closes h) {i j : Nat} {y : ε} {k k' : κ}
    (hi : h[i]? = some (p, x)) (hx : closes x = some k) (hj : h[j]? = some (q, y))
    (hy : closes y = some k') (hs : source q h j = source p h i) : j = i := by
  obtain ⟨e, he, hek⟩ := hh.getElem?_source hi hx
  obtain ⟨e', he', hek'⟩ := hh.getElem?_source hj hy
  rw [hs, he] at he'
  cases he'
  have hlt : ∀ {m n : Nat} {z : ε} {l : κ}, h[n]? = some (p, z) → closes z = some l →
      source p h n = source p h m → ¬ m < n := by
    intro m n z l hn hz hmn hlt
    have hle := source_le hlt hn
    have hself : n < source p h n := by
      rw [source]
      omega
    omega
  rcases Nat.lt_trichotomy i j with hij | rfl | hij
  · exact absurd hij (hlt hj hy hs)
  · rfl
  · exact absurd hij (hlt hi hx hs.symm)

/-- **What is handed over has an event of its own that took it up**: an earlier
one of the same party, under the same key. -/
theorem Handed.exists_source (hh : Handed opens closes h) :
    ∃ src : Nat → Nat, ∀ i p x k, h[i]? = some (p, x) → closes x = some k →
      i < src i ∧ (∃ e, h[src i]? = some (p, e) ∧ opens e = some k) ∧
      ∀ j q y k', h[j]? = some (q, y) → closes y = some k' → src j = src i → j = i := by
  refine ⟨fun i => ((h[i]?).map (fun y => source y.1 h i)).getD 0, fun i p x k hi hx => ?_⟩
  simp only [hi, Option.map_some, Option.getD_some]
  refine ⟨by rw [source]; omega, hh.getElem?_source hi hx, fun j q y k' hj hy hs => ?_⟩
  rw [hj] at hs
  exact hh.source_injective hi hx hj hy hs

end Handoff
