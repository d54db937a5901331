import Mathlib.Algebra.BigOperators.Group.Finset.Piecewise
import Mathlib.Data.List.Basic

/-!
# Runs of a labelled transition system

A `System` is a set of initial states and a partial step function that reports
the events a step causes.  `Path` is a finite sequence of steps, each passing a
guard `ok`, with the events collected newest first; a `Run` is a path from an
initial state.  The guard is what lets one system carry both the statements
that hold on every run and those that hold on the runs whose steps all meet a
condition.

`Run.invariant` packages the induction: what holds at the start and is kept by
every step of a run holds at its end.  `Path.stable` is the same for what holds
from some point of a run on.  `Run.between` finds the event that must stand
between two others.  `System.exec` replays a list of actions, and
`run_of_exec` turns a replay that succeeds into a run.  `System.observe` is the
same system with other events reported of its steps.

`countSince` counts events since the latest event that carries a mark.
-/

namespace Lts

/-- A labelled transition system whose steps report events. -/
structure System (σ α ε : Type*) where
  init : σ → Prop
  step : σ → α → Option (σ × List ε)

variable {σ α ε : Type*} {S : System σ α ε} {ok ok' : σ → α → Bool}

/-- The steps from `s` to the last state, all passing `ok`, with their events,
newest first. -/
inductive Path (S : System σ α ε) (ok : σ → α → Bool) (s : σ) : List ε → σ → Prop
  | refl : Path S ok s [] s
  | snoc {h es : List ε} {t u : σ} {a : α} : Path S ok s h t → ok t a = true →
      S.step t a = some (u, es) → Path S ok s (es ++ h) u

/-- A path from an initial state. -/
def Run (S : System σ α ε) (ok : σ → α → Bool) (h : List ε) (s : σ) : Prop :=
  ∃ s₀, S.init s₀ ∧ Path S ok s₀ h s

/-! ### Paths -/

theorem Path.single {s t : σ} {a : α} {es : List ε} (ha : ok s a = true)
    (hs : S.step s a = some (t, es)) : Path S ok s es t := by
  have p : Path S ok s [] s := .refl
  have q := p.snoc ha hs
  rwa [List.append_nil] at q

theorem Path.trans {s t u : σ} {h k : List ε} (p : Path S ok s h t) (q : Path S ok t k u) :
    Path S ok s (k ++ h) u := by
  induction q with
  | refl => exact p
  | snoc _ ha hs ih => rw [List.append_assoc]; exact ih.snoc ha hs

theorem Path.mono (hok : ∀ s a, ok s a = true → ok' s a = true) {s t : σ} {h : List ε}
    (p : Path S ok s h t) : Path S ok' s h t := by
  induction p with
  | refl => exact .refl
  | snoc _ ha hs ih => exact ih.snoc (hok _ _ ha) hs

theorem Path.invariant {I : List ε → σ → Prop} {s₀ s : σ} {h : List ε} (init : I [] s₀)
    (step : ∀ h s a t es, Path S ok s₀ h s → I h s → ok s a = true →
      S.step s a = some (t, es) → I (es ++ h) t)
    (p : Path S ok s₀ h s) : I h s := by
  induction p with
  | refl => exact init
  | snoc p ha hs ih => exact step _ _ _ _ _ p ih ha hs

/-! ### Runs -/

theorem Run.init {s : σ} (hs : S.init s) : Run S ok [] s := ⟨s, hs, .refl⟩

theorem Run.snoc {s t : σ} {h es : List ε} {a : α} (hr : Run S ok h s) (ha : ok s a = true)
    (hs : S.step s a = some (t, es)) : Run S ok (es ++ h) t := by
  obtain ⟨s₀, h₀, p⟩ := hr
  exact ⟨s₀, h₀, p.snoc ha hs⟩

theorem Run.path {s t : σ} {h k : List ε} (hr : Run S ok h s) (p : Path S ok s k t) :
    Run S ok (k ++ h) t := by
  obtain ⟨s₀, h₀, q⟩ := hr
  exact ⟨s₀, h₀, q.trans p⟩

theorem Run.mono (hok : ∀ s a, ok s a = true → ok' s a = true) {s : σ} {h : List ε}
    (hr : Run S ok h s) : Run S ok' h s := by
  obtain ⟨s₀, h₀, p⟩ := hr
  exact ⟨s₀, h₀, p.mono hok⟩

/-- **The invariant rule.**  What holds initially and is kept by every step of
a run holds at the end of every run. -/
theorem Run.invariant {I : List ε → σ → Prop} (init : ∀ s, S.init s → I [] s)
    (step : ∀ h s a t es, Run S ok h s → I h s → ok s a = true →
      S.step s a = some (t, es) → I (es ++ h) t)
    {h : List ε} {s : σ} (hr : Run S ok h s) : I h s := by
  obtain ⟨s₀, h₀, p⟩ := hr
  exact p.invariant (init s₀ h₀) (fun h s a t es q => step h s a t es ⟨s₀, h₀, q⟩)

/-- **What holds from some point on.**  If every step of a run keeps `Q`, it
still holds at the end of every path that starts where it holds. -/
theorem Path.stable {Q : σ → Prop}
    (step : ∀ h s a t es, Run S ok h s → Q s → ok s a = true →
      S.step s a = some (t, es) → Q t)
    {h k : List ε} {s t : σ} (hr : Run S ok h s) (hq : Q s) (p : Path S ok s k t) : Q t := by
  induction p with
  | refl => exact hq
  | snoc p ha hs ih => exact step _ _ _ _ _ (hr.path p) ih ha hs

/-- A run whose states all meet `I` passes every guard that `I` turns its own into. -/
theorem Run.mono_of {I : σ → Prop} (hI : ∀ h s, Run S ok h s → I s)
    (hok : ∀ s a, I s → ok s a = true → ok' s a = true) {h : List ε} {s : σ}
    (hr : Run S ok h s) : Run S ok' h s := by
  obtain ⟨s₀, h₀, p⟩ := hr
  refine ⟨s₀, h₀, ?_⟩
  induction p with
  | refl => exact .refl
  | snoc p ha hs ih => exact ih.snoc (hok _ _ (hI _ _ ⟨s₀, h₀, p⟩) ha) hs

/-! ### One event between two others -/

theorem append_eq_append_cons {y : ε} {l₁ l₂ k m : List ε} (hy : y ∉ l₁)
    (h : l₁ ++ l₂ = k ++ y :: m) : ∃ k', k = l₁ ++ k' ∧ l₂ = k' ++ y :: m := by
  induction l₁ generalizing k with
  | nil => exact ⟨k, rfl, h⟩
  | cons x l₁ ih =>
    cases k with
    | nil =>
      rw [List.nil_append, List.cons_append] at h
      exact absurd (List.cons.inj h).1.symm (fun hxy => hy (hxy ▸ List.mem_cons_self))
    | cons z k =>
      rw [List.cons_append, List.cons_append, List.cons.injEq] at h
      obtain ⟨rfl, h⟩ := h
      obtain ⟨k', rfl, hk⟩ := ih (fun hm => hy (List.mem_cons_of_mem _ hm)) h
      exact ⟨k', rfl, hk⟩

/-- **Between two steps that end `Q` there is one that brings it about.**  An
event with the mark is the only one of its step, and tells that `Q` has ended;
`Q` comes about with an event that satisfies `p`. -/
theorem Run.between {p : ε → Bool} (Q : σ → Prop) (mark : ε → Bool)
    (ends : ∀ s a t es x, S.step s a = some (t, es) → x ∈ es → mark x = true →
      es = [x] ∧ Q s ∧ ¬ Q t)
    (begins : ∀ s a t es, S.step s a = some (t, es) → ¬ Q s → Q t → ∃ e ∈ es, p e = true)
    {h : List ε} {s : σ} (hr : Run S ok h s) {k₁ k₂ k₃ : List ε} {x y : ε}
    (hh : h = k₁ ++ x :: (k₂ ++ y :: k₃)) (hx : mark x = true) (hy : mark y = true) :
    ∃ e ∈ k₂, p e = true := by
  have hinv : (∀ k₂ y k₃, h = k₂ ++ y :: k₃ → mark y = true → (∀ e ∈ k₂, p e ≠ true) → ¬ Q s) ∧
      ∀ k₁ x k₂ y k₃, h = k₁ ++ x :: (k₂ ++ y :: k₃) → mark x = true → mark y = true →
        ∃ e ∈ k₂, p e = true := by
    refine hr.invariant (I := fun h s =>
      (∀ k₂ y k₃, h = k₂ ++ y :: k₃ → mark y = true → (∀ e ∈ k₂, p e ≠ true) → ¬ Q s) ∧
      ∀ k₁ x k₂ y k₃, h = k₁ ++ x :: (k₂ ++ y :: k₃) → mark x = true → mark y = true →
        ∃ e ∈ k₂, p e = true) ?_ ?_
    · intro s _
      refine ⟨fun k₂ y k₃ hk => ?_, fun k₁ x k₂ y k₃ hk => ?_⟩ <;> simp at hk
    · intro h s a t es _ ⟨hlast, hall⟩ _ hstep
      by_cases hm : ∃ z ∈ es, mark z = true
      · obtain ⟨z, hz, hzm⟩ := hm
        obtain ⟨rfl, hQ, hQ'⟩ := ends s a t es z hstep hz hzm
        have hbetween : ∀ k₂ y k₃, h = k₂ ++ y :: k₃ → mark y = true →
            ∃ e ∈ k₂, p e = true := by
          intro k₂ y k₃ hk hy
          by_contra hno
          exact hlast k₂ y k₃ hk hy (fun e he hp => hno ⟨e, he, hp⟩) hQ
        refine ⟨fun _ _ _ _ _ _ => hQ', fun k₁ x k₂ y k₃ hk hx hy => ?_⟩
        cases k₁ with
        | nil =>
          obtain ⟨-, hk⟩ := List.cons.inj hk
          exact hbetween k₂ y k₃ hk hy
        | cons _ k₁ =>
          obtain ⟨-, hk⟩ := List.cons.inj hk
          exact hall k₁ x k₂ y k₃ hk hx hy
      · have hno : ∀ y, mark y = true → y ∉ es := fun y hy hmem => hm ⟨y, hmem, hy⟩
        refine ⟨fun k₂ y k₃ hk hy hnone hQ => ?_, fun k₁ x k₂ y k₃ hk hx hy => ?_⟩
        · obtain ⟨k, rfl, hrest⟩ := append_eq_append_cons (hno y hy) hk
          have hQs : ¬ Q s := hlast k y k₃ hrest hy
            (fun e he => hnone e (List.mem_append_right _ he))
          obtain ⟨e, he, hp⟩ := begins s a t es hstep hQs hQ
          exact hnone e (List.mem_append_left _ he) hp
        · obtain ⟨k, -, hk⟩ := append_eq_append_cons (hno x hx) hk
          exact hall k x k₂ y k₃ hk hx hy
  exact hinv.2 k₁ x k₂ y k₃ hh hx hy

/-! ### Replaying actions -/

/-- Take the actions one after another; `none` when one is refused by `ok` or
is not enabled. -/
def System.exec (S : System σ α ε) (ok : σ → α → Bool) : σ → List α → Option (σ × List ε)
  | s, [] => some (s, [])
  | s, a :: as =>
    if ok s a then
      match S.step s a with
      | none => none
      | some (t, es) =>
        match System.exec S ok t as with
        | none => none
        | some (u, h) => some (u, h ++ es)
    else none

theorem path_of_exec (as : List α) {s t : σ} {h : List ε} (he : S.exec ok s as = some (t, h)) :
    Path S ok s h t := by
  induction as generalizing s t h with
  | nil =>
    simp only [System.exec, Option.some.injEq, Prod.mk.injEq] at he
    obtain ⟨rfl, rfl⟩ := he
    exact .refl
  | cons a as ih =>
    rw [System.exec] at he
    split at he
    · rename_i ha
      split at he
      · cases he
      · rename_i u es hs
        split at he
        · cases he
        · rename_i v k hk
          cases he
          exact (Path.single ha hs).trans (ih hk)
    · cases he

theorem run_of_exec {as : List α} {s t : σ} {h : List ε} (h₀ : S.init s)
    (he : S.exec ok s as = some (t, h)) : Run S ok h t := ⟨s, h₀, path_of_exec as he⟩

theorem exec_keeps {P : σ → Prop} (as : List α) {s t : σ} {h : List ε}
    (hkeep : ∀ a ∈ as, ∀ u v es, S.step u a = some (v, es) → P u → P v)
    (he : S.exec ok s as = some (t, h)) (hs : P s) : P t := by
  induction as generalizing s t h with
  | nil =>
    cases he
    exact hs
  | cons a as ih =>
    rw [System.exec] at he
    split at he
    · split at he
      · cases he
      · rename_i u es hstep
        split at he
        · cases he
        · rename_i v k hk
          cases he
          exact ih (fun b hb => hkeep b (List.mem_cons_of_mem _ hb)) hk
            (hkeep a List.mem_cons_self s u es hstep hs)
    · cases he

/-- A replay passes every guard that what its actions keep turns its own into. -/
theorem path_of_exec_of {P : σ → Prop} (as : List α) {s t : σ} {h : List ε}
    (hkeep : ∀ a ∈ as, ∀ u v es, S.step u a = some (v, es) → P u → P v)
    (hok : ∀ a ∈ as, ∀ u, P u → ok u a = true → ok' u a = true)
    (he : S.exec ok s as = some (t, h)) (hs : P s) : Path S ok' s h t := by
  induction as generalizing s t h with
  | nil =>
    cases he
    exact .refl
  | cons a as ih =>
    rw [System.exec] at he
    split at he
    · rename_i ha
      split at he
      · cases he
      · rename_i u es hstep
        split at he
        · cases he
        · rename_i v k hk
          cases he
          have hu : P u := hkeep a List.mem_cons_self s u es hstep hs
          exact (Path.single (hok a List.mem_cons_self s hs ha) hstep).trans
            (ih (fun b hb => hkeep b (List.mem_cons_of_mem _ hb))
              (fun b hb => hok b (List.mem_cons_of_mem _ hb)) hk hu)
    · cases he

/-- What a replay shows holds at the end of some run. -/
theorem run_of_replay {β : Type*} (S : System σ α ε) (ok : σ → α → Bool) (as : List α) {s : σ}
    (f : σ × List ε → β) (v : β) (h₀ : S.init s) (he : (S.exec ok s as).map f = some v) :
    ∃ t h, Run S ok h t ∧ f (t, h) = v := by
  obtain ⟨⟨t, h⟩, he, hf⟩ := Option.map_eq_some_iff.mp he
  exact ⟨t, h, run_of_exec h₀ he, hf⟩

/-! ### Other observations -/

/-- The same steps, of which `f` tells what is reported. -/
def System.observe {δ : Type*} (S : System σ α ε) (f : σ → α → σ → List ε → List δ) :
    System σ α δ := ⟨S.init, fun s a => (S.step s a).map (fun (t, es) => (t, f s a t es))⟩

theorem step_of_observe {δ : Type*} {f : σ → α → σ → List ε → List δ} {s t : σ} {a : α}
    {ds : List δ} (h : (S.observe f).step s a = some (t, ds)) :
    ∃ es, S.step s a = some (t, es) ∧ ds = f s a t es := by
  obtain ⟨⟨u, es⟩, hs, he⟩ := Option.map_eq_some_iff.mp h
  cases he
  exact ⟨es, hs, rfl⟩

theorem Path.of_observe {δ : Type*} {f : σ → α → σ → List ε → List δ} {s t : σ} {h : List δ}
    (p : Path (S.observe f) ok s h t) : ∃ k, Path S ok s k t := by
  induction p with
  | refl => exact ⟨[], .refl⟩
  | snoc _ ha hs ih =>
    obtain ⟨k, q⟩ := ih
    obtain ⟨es, hs, -⟩ := step_of_observe hs
    exact ⟨es ++ k, q.snoc ha hs⟩

theorem Run.of_observe {δ : Type*} {f : σ → α → σ → List ε → List δ} {s : σ} {h : List δ}
    (hr : Run (S.observe f) ok h s) : ∃ k, Run S ok k s := by
  obtain ⟨s₀, h₀, p⟩ := hr
  obtain ⟨k, q⟩ := p.of_observe
  exact ⟨k, s₀, h₀, q⟩

/-! ### Counting events -/

theorem sum_countP_filter {κ : Type*} [DecidableEq κ] {key : ε → Option κ} {p : ε → Bool}
    {ks : Finset κ} {h : List ε}
    (hks : ∀ e ∈ h, p e = true → ∃ k ∈ ks, key e = some k) :
    ∑ k ∈ ks, (h.filter (fun e => decide (key e = some k))).countP p = h.countP p := by
  induction h with
  | nil => simp
  | cons e h ih =>
    have hh := ih (fun x hx => hks x (List.mem_cons_of_mem e hx))
    have hstep : ∀ k, ((e :: h).filter (fun e => decide (key e = some k))).countP p =
        (h.filter (fun e => decide (key e = some k))).countP p +
          (if key e = some k ∧ p e = true then 1 else 0) := by
      intro k
      by_cases hk : key e = some k
      · rw [List.filter_cons_of_pos (by simpa using hk), List.countP_cons]
        simp [hk]
      · rw [List.filter_cons_of_neg (by simpa using hk)]
        simp [hk]
    rw [Finset.sum_congr rfl (fun k _ => hstep k), Finset.sum_add_distrib, hh, List.countP_cons]
    congr 1
    by_cases hp : p e = true
    · obtain ⟨k, hk, hkey⟩ := hks e List.mem_cons_self hp
      simp [hp, hkey, hk]
    · simp [hp]

/-- The events after the latest one with the mark. -/
def since (mark : ε → Bool) (h : List ε) : List ε := h.takeWhile (fun e => !mark e)

/-- How many events satisfy `p` since the latest one with the mark. -/
def countSince (mark p : ε → Bool) (h : List ε) : Nat := (since mark h).countP p

theorem countSince_cons {mark : ε → Bool} (p : ε → Bool) {e : ε} (he : mark e = false)
    (h : List ε) :
    countSince mark p (e :: h) = countSince mark p h + (if p e then 1 else 0) := by
  have hs : since mark (e :: h) = e :: since mark h :=
    List.takeWhile_cons_of_pos (by rw [he]; rfl)
  rw [countSince, hs, List.countP_cons]
  rfl

theorem countSince_cons_mark {mark p : ε → Bool} {e : ε} (he : mark e = true) (h : List ε) :
    countSince mark p (e :: h) = 0 := by
  simp [countSince, since, he]

end Lts
