import Mathlib.Logic.Function.Basic

/-!
# A unique index under concurrent transactions

The index maps a key to what was inserted with it.  `committed` is what every
transaction sees; `pending` are the entries of transactions that have not ended,
seen by nobody else but in the way of everybody else.  An insert of a key that
is committed violates the index, an insert of a key that another transaction
has pending waits for the end of that transaction, and any other goes through.

That a key is never both pending and committed is a field of the structure, so
every commit adds what its transaction has pending and overwrites nothing
(`committed_commit`).
-/

/-- A unique index from `κ` to `ν` with the entries of the transactions `τ`. -/
structure UniqueIndex (κ τ ν : Type*) where
  committed : κ → Option ν
  pending : κ → Option (τ × ν)
  free_of_pending : ∀ k, pending k ≠ none → committed k = none

namespace UniqueIndex

variable {κ τ ν : Type*}

def empty : UniqueIndex κ τ ν := ⟨fun _ => none, fun _ => none, fun _ _ => rfl⟩

/-! ### Ends of transactions -/

section Ends

variable [DecidableEq τ] {ix : UniqueIndex κ τ ν} {t t' : τ} {k : κ} {v : ν}

/-- The entries of transactions other than `t`. -/
def others (ix : UniqueIndex κ τ ν) (t : τ) (k : κ) : Option (τ × ν) :=
  (ix.pending k).filter (fun e => decide (e.1 ≠ t))

theorem others_eq_some : ix.others t k = some (t', v) ↔ ix.pending k = some (t', v) ∧ t' ≠ t := by
  rw [others, Option.filter_eq_some_iff, decide_eq_true_eq]

theorem pending_of_others (h : ix.others t k ≠ none) : ix.pending k ≠ none := by
  intro hn
  rw [others, hn] at h
  exact h rfl

/-- Transaction `t` is rolled back. -/
def abort (ix : UniqueIndex κ τ ν) (t : τ) : UniqueIndex κ τ ν where
  committed := ix.committed
  pending := ix.others t
  free_of_pending j hj := ix.free_of_pending j (pending_of_others hj)

/-- Transaction `t` commits. -/
def commit (ix : UniqueIndex κ τ ν) (t : τ) : UniqueIndex κ τ ν where
  committed j :=
    match ix.pending j with
    | some (t', v) => if t' = t then some v else ix.committed j
    | none => ix.committed j
  pending := ix.others t
  free_of_pending j hj := by
    obtain ⟨⟨t', v⟩, he⟩ := Option.ne_none_iff_exists'.mp hj
    obtain ⟨hp, hne⟩ := others_eq_some.mp he
    rw [hp]
    exact (if_neg hne).trans (ix.free_of_pending j (by rw [hp]; exact Option.some_ne_none _))

theorem pending_abort : (ix.abort t).pending k = some (t', v) ↔
    ix.pending k = some (t', v) ∧ t' ≠ t := others_eq_some

theorem pending_commit : (ix.commit t).pending k = some (t', v) ↔
    ix.pending k = some (t', v) ∧ t' ≠ t := others_eq_some

/-- **A commit adds what the transaction has pending**, and takes nothing away. -/
theorem committed_commit : (ix.commit t).committed k = some v ↔
    ix.pending k = some (t, v) ∨ ix.committed k = some v := by
  show (match ix.pending k with
    | some (t', v) => if t' = t then some v else ix.committed k
    | none => ix.committed k) = some v ↔ _
  cases hp : ix.pending k with
  | none => simp
  | some e =>
    obtain ⟨t', v'⟩ := e
    have hfree : ix.committed k = none :=
      ix.free_of_pending k (by rw [hp]; exact Option.some_ne_none _)
    by_cases ht : t' = t
    · subst ht
      simp [hfree]
    · simp [ht, hfree]

end Ends

/-! ### Inserts -/

section Inserts

variable [DecidableEq κ] [DecidableEq τ] {ix ix' : UniqueIndex κ τ ν} {t t' : τ} {k k' : κ}
  {v v' : ν}

/-- What an insert comes to. -/
inductive Insert (κ τ ν : Type*)
  | done (ix : UniqueIndex κ τ ν)
  | violation
  | waits

/-- Transaction `t` inserts `k` with `v`. -/
def insert (ix : UniqueIndex κ τ ν) (t : τ) (k : κ) (v : ν) : Insert κ τ ν :=
  match hc : ix.committed k with
  | some _ => .violation
  | none =>
    match ix.pending k with
    | some (t', _) => if t' = t then .violation else .waits
    | none => .done
      { committed := ix.committed
        pending := Function.update ix.pending k (some (t, v))
        free_of_pending := by
          intro j hj
          by_cases h : j = k
          · rw [h, hc]
          · rw [Function.update_of_ne h] at hj
            exact ix.free_of_pending j hj }

theorem insert_done (h : ix.insert t k v = .done ix') :
    ix.pending k = none ∧ ix'.committed = ix.committed ∧
      ix'.pending = Function.update ix.pending k (some (t, v)) := by
  unfold insert at h
  split at h
  · cases h
  · split at h
    · split at h <;> cases h
    · rename_i hp
      cases h
      exact ⟨hp, rfl, rfl⟩

theorem pending_insert (h : ix.insert t k v = .done ix') :
    ix'.pending k' = some (t', v') ↔
      k' = k ∧ t' = t ∧ v' = v ∨ ix.pending k' = some (t', v') := by
  obtain ⟨hnone, -, hp⟩ := insert_done h
  rw [hp]
  by_cases hk : k' = k
  · subst hk
    rw [Function.update_self, hnone]
    constructor
    · rintro ⟨⟩
      exact Or.inl ⟨rfl, rfl, rfl⟩
    · rintro (⟨-, rfl, rfl⟩ | h)
      · rfl
      · cases h
  · rw [Function.update_of_ne hk]
    exact ⟨Or.inr, fun h => h.resolve_left (fun h => hk h.1)⟩

/-- **A violation is a key that is committed**, unless the transaction itself
has inserted it. -/
theorem insert_violation (h : ix.insert t k v = .violation)
    (hown : ∀ v', ix.pending k ≠ some (t, v')) : ∃ v', ix.committed k = some v' := by
  unfold insert at h
  split at h
  · rename_i v' hc
    exact ⟨v', hc⟩
  · split at h
    · rename_i t' v' hp
      split at h
      · rename_i ht
        subst ht
        exact absurd hp (hown v')
      · cases h
    · cases h

end Inserts

end UniqueIndex
