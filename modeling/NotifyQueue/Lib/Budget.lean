import Mathlib.Data.Finset.Card
import Mathlib.Data.Int.Notation
import Mathlib.Order.MinMax

/-!
# Increment, then check

A budget is kept as one shared counter.  A request increments it and is admitted
if the new value is within the limit; otherwise it owes a decrement, which may
come late or never.  `Books` relates the counter to the requests made, the
requests admitted and the parties that still owe their decrement, whatever the
order in which these come.

The counter never falls below what is admitted and owed, and never exceeds the
number of requests, so a request is rejected only when the budget is used up:
what is admitted is exactly the smaller of the limit and the number of requests.
-/

namespace Budget

variable {π : Type*} {limit value : ℤ} {admitted tried : ℕ} {owing owing' : Finset π}

/-- The counter `value` after `tried` requests of which `admitted` were admitted,
while the parties in `owing` have still to decrement it. -/
structure Books (limit value : ℤ) (admitted tried : ℕ) (owing : Finset π) : Prop where
  exact : (admitted : ℤ) = min limit tried
  covered : admitted + owing.card ≤ value
  bounded : value ≤ tried

theorem books_empty (h : 0 ≤ limit) : Books limit 0 0 0 (∅ : Finset π) where
  exact := by omega
  covered := by simp
  bounded := by simp

namespace Books

theorem accept (h : Books limit value admitted tried owing) (hv : value + 1 ≤ limit) :
    Books limit (value + 1) (admitted + 1) (tried + 1) owing := by
  have he := h.exact
  have hc := h.covered
  have hb := h.bounded
  refine ⟨?_, ?_, ?_⟩ <;> push_cast <;> omega

theorem reject [DecidableEq π] (h : Books limit value admitted tried owing)
    (hv : limit < value + 1) {p : π} (hp : p ∉ owing) :
    Books limit (value + 1) admitted (tried + 1) (insert p owing) := by
  have he := h.exact
  have hc := h.covered
  have hb := h.bounded
  refine ⟨?_, ?_, ?_⟩
  · push_cast
    omega
  · rw [Finset.card_insert_of_notMem hp]
    push_cast
    omega
  · push_cast
    omega

theorem undo [DecidableEq π] (h : Books limit value admitted tried owing) {p : π}
    (hp : p ∈ owing) : Books limit (value - 1) admitted tried (owing.erase p) := by
  have hc := h.covered
  have hb := h.bounded
  have hcard := Finset.card_erase_add_one hp
  refine ⟨h.exact, ?_, ?_⟩ <;> omega

theorem forget (h : Books limit value admitted tried owing) (hs : owing' ⊆ owing) :
    Books limit value admitted tried owing' := by
  have hc := h.covered
  have hcard := Finset.card_le_card hs
  exact ⟨h.exact, by omega, h.bounded⟩

/-- While somebody owes a decrement the counter is positive. -/
theorem pos (h : Books limit value admitted tried owing) {p : π} (hp : p ∈ owing) :
    0 < value := by
  have hc := h.covered
  have hcard := Finset.card_pos.mpr ⟨p, hp⟩
  omega

end Books

end Budget
