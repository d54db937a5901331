import Mathlib.Data.List.Basic

/-!
# Leases: one holder at a time, by one gate

A lease is idle, offered, or held by someone.  It is taken only when offered,
offered only when idle, and an offer can be withdrawn.  Nothing else is
assumed: any number of parties may try to take it, at any time, any number of
times.  What follows from the gate alone:

* `History.takes_le_offers`: it is taken at most as often as it is offered;
* `History.holder`: while it is held, the holder is the one who took it last;
* `History.between`: between two takes the first holder left and, after that,
  it was offered again.

Histories are newest first.
-/

namespace Lease

/-- Where a lease stands. -/
inductive Phase (ω : Type*)
  | idle
  | offered
  | held (w : ω)

/-- What can be observed of a lease. -/
inductive Event (ω : Type*)
  | offer
  | take (w : ω)
  | leave

variable {ω : Type*}

def Event.isOffer : Event ω → Bool
  | .offer => true
  | _ => false

def Event.isTake : Event ω → Bool
  | .take _ => true
  | _ => false

/-- What can happen to a lease at once, with the events it causes. -/
inductive Move : Phase ω → List (Event ω) → Phase ω → Prop
  | stay (p : Phase ω) : Move p [] p
  | offer : Move .idle [.offer] .offered
  | withdraw : Move .offered [] .idle
  | take (w : ω) : Move .offered [.take w] (.held w)
  | leave (w : ω) : Move (.held w) [.leave] .idle

/-- The histories of a lease, newest event first, with the phase they end in. -/
inductive History : List (Event ω) → Phase ω → Prop
  | nil : History [] .idle
  | move {h es : List (Event ω)} {p q : Phase ω} :
      History h p → Move p es q → History (es ++ h) q

/-- How many takes an offer still stands for. -/
def Phase.pending : Phase ω → Nat
  | .offered => 1
  | _ => 0

theorem History.takes_add_pending {h : List (Event ω)} {p : Phase ω} (hh : History h p) :
    h.countP Event.isTake + p.pending ≤ h.countP Event.isOffer := by
  induction hh with
  | nil => exact Nat.le_refl _
  | move _ m ih =>
    rw [List.countP_append, List.countP_append]
    cases m <;> simp [Phase.pending, Event.isTake, Event.isOffer] at ih ⊢ <;> omega

/-- **A lease is taken at most as often as it is offered.** -/
theorem History.takes_le_offers {h : List (Event ω)} {p : Phase ω} (hh : History h p) :
    h.countP Event.isTake ≤ h.countP Event.isOffer :=
  Nat.le_of_add_right_le hh.takes_add_pending

/-- **The holder is the one who took it last.** -/
theorem History.holder {h : List (Event ω)} {p : Phase ω} (hh : History h p) :
    ∀ w, p = .held w → h.find? Event.isTake = some (.take w) := by
  induction hh with
  | nil => intro w hp; cases hp
  | move _ m ih =>
    intro w hp
    cases m with
    | stay => exact ih w hp
    | take w' =>
      cases hp
      rfl
    | offer | withdraw | leave => cases hp

/-- What the events `b` after a take must contain, by where the lease stands. -/
def Phase.Owes (b : List (Event ω)) : Phase ω → Prop
  | .idle => .leave ∈ b
  | .offered => ∃ x y, b = x ++ .offer :: y ∧ .leave ∈ y
  | .held _ => True

theorem History.owes {h : List (Event ω)} {p : Phase ω} (hh : History h p) :
    ∀ b w c, h = b ++ .take w :: c → p.Owes b := by
  induction hh with
  | nil => intro b w c he; simp at he
  | move _ m ih =>
    intro b w c he
    cases m with
    | stay => exact ih b w c he
    | withdraw =>
      obtain ⟨x, y, rfl, hy⟩ := ih b w c he
      exact List.mem_append_right _ (List.mem_cons_of_mem _ hy)
    | take => exact trivial
    | offer =>
      cases b with
      | nil => cases he
      | cons e b =>
        obtain ⟨rfl, hb⟩ := List.cons.inj he
        exact ⟨[], b, rfl, ih b w c hb⟩
    | leave =>
      cases b with
      | nil => cases he
      | cons e b =>
        obtain ⟨rfl, -⟩ := List.cons.inj he
        exact List.mem_cons_self

/-- **Between two takes the holder left, and the lease was offered after that.** -/
theorem History.between {h : List (Event ω)} {p : Phase ω} (hh : History h p) :
    ∀ a w b w' c, h = a ++ .take w :: (b ++ .take w' :: c) →
      ∃ x y, b = x ++ .offer :: y ∧ .leave ∈ y := by
  induction hh with
  | nil => intro a w b w' c he; simp at he
  | @move h es p q hp m ih =>
    intro a w b w' c he
    cases m with
    | stay | withdraw => exact ih a w b w' c he
    | take =>
      cases a with
      | nil =>
        obtain ⟨-, rfl⟩ := List.cons.inj he
        exact hp.owes b w' c rfl
      | cons e a => exact ih a w b w' c (List.cons.inj he).2
    | offer | leave =>
      cases a with
      | nil => cases he
      | cons e a => exact ih a w b w' c (List.cons.inj he).2

end Lease
