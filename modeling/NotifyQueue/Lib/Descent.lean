import Mathlib.Algebra.BigOperators.Group.Finset.Basic
import Mathlib.Algebra.Order.BigOperators.Group.Finset
import NotifyQueue.Lib.Run
import NotifyQueue.Lib.Table

/-!
# Getting somewhere

`exists_path_of_descent` is the rule by which a system can be brought to a goal: where
the goal is not met a path leads on, to the goal or to a lower rank.

`Table.weight` is a rank for a table, the sum over its rows of a weight each.  It is
lower when no row weighs more than before and one weighs less (`weight_lt`).
-/

namespace Lts

variable {σ α ε : Type*} {S : System σ α ε} {ok : σ → α → Bool} {I G : σ → Prop}

/-- **Descent to a goal.** -/
theorem exists_path_of_descent (rank : σ → ℕ)
    (hstep : ∀ s, I s → ¬ G s →
      ∃ h t, Path S ok s h t ∧ (G t ∨ I t ∧ rank t < rank s)) {s : σ} (hs : I s) :
    ∃ h t, Path S ok s h t ∧ G t := by
  induction hn : rank s using Nat.strongRecOn generalizing s with
  | ind n ih =>
    by_cases hg : G s
    · exact ⟨[], s, .refl, hg⟩
    obtain ⟨h, t, hp, hgoal | ⟨ht, hlt⟩⟩ := hstep s hs hg
    · exact ⟨h, t, hp, hgoal⟩
    obtain ⟨k, u, hq, hu⟩ := ih (rank t) (hn ▸ hlt) ht rfl
    exact ⟨k ++ h, u, hp.trans hq, hu⟩

end Lts

namespace KeyedTable.Table

open Keyed (key)

variable {ρ κ : Type*} [Keyed ρ κ] [DecidableEq κ] {f : ρ → ℕ} {t t' : Table ρ}

/-- The keys of the rows. -/
def keys (t : Table ρ) : Finset κ := (t.rows.map key).toFinset

theorem mem_keys {k : κ} : k ∈ t.keys ↔ ∃ r, t.find? k = some r := by
  rw [keys, List.mem_toFinset, ← Option.ne_none_iff_exists', ne_eq, find?_eq_none_iff, not_not]

/-- What the row with a key weighs. -/
def weightAt (f : ρ → ℕ) (t : Table ρ) (k : κ) : ℕ := ((t.find? k).map f).getD 0

/-- What the rows weigh together. -/
def weight (f : ρ → ℕ) (t : Table ρ) : ℕ := ∑ k ∈ t.keys, weightAt f t k

theorem keys_eq (h : ∀ k, (t'.find? k).isSome = (t.find? k).isSome) : t'.keys = t.keys := by
  ext k
  rw [mem_keys, mem_keys, ← Option.isSome_iff_exists, ← Option.isSome_iff_exists, h]

theorem weight_eq_zero_iff : weight f t = 0 ↔ ∀ k r, t.find? k = some r → f r = 0 := by
  rw [weight, Finset.sum_eq_zero_iff]
  constructor
  · intro h k r hr
    have hk := h k (mem_keys.mpr ⟨r, hr⟩)
    rwa [weightAt, hr] at hk
  · intro h k hk
    obtain ⟨r, hr⟩ := mem_keys.mp hk
    rw [weightAt, hr]
    exact h k r hr

theorem weight_le (hkeys : ∀ k, (t'.find? k).isSome = (t.find? k).isSome)
    (h : ∀ k, weightAt f t' k ≤ weightAt f t k) : weight f t' ≤ weight f t := by
  rw [weight, weight, keys_eq hkeys]
  exact Finset.sum_le_sum (fun k _ => h k)

/-- **One lighter row makes a lighter table.** -/
theorem weight_lt (hkeys : ∀ k, (t'.find? k).isSome = (t.find? k).isSome)
    (h : ∀ k, weightAt f t' k ≤ weightAt f t k) {k : κ}
    (hlt : weightAt f t' k < weightAt f t k) : weight f t' < weight f t := by
  have hk : k ∈ t.keys := by
    cases hr : t.find? k with
    | none =>
      rw [weightAt, weightAt, hr] at hlt
      exact absurd hlt (Nat.not_lt_zero _)
    | some r => exact mem_keys.mpr ⟨r, hr⟩
  rw [weight, weight, keys_eq hkeys]
  exact Finset.sum_lt_sum (fun k _ => h k) ⟨k, hk, hlt⟩

end KeyedTable.Table
