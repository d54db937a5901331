import Mathlib.Algebra.BigOperators.Group.Finset.Piecewise
import Mathlib.Data.Finset.Card
import Mathlib.Data.List.Nodup
import Mathlib.Data.List.Perm.Subperm

/-!
# Tables keyed by a column

A `Table` is a list of rows no two of which share a key; the list order is the
physical order and means nothing.  An `Update` is the statement
`UPDATE … SET set WHERE applies`, and carries the fact that it leaves the key
column alone.  Everything below is read through `find?`, the row with a given
key: `find?_update` says an update acts on that row alone, and `find?_insert?`
that an insert adds one.
-/

namespace KeyedTable

/-- Rows with a key column. -/
class Keyed (ρ : Type*) (κ : outParam Type*) where
  key : ρ → κ

open Keyed (key)

variable {ρ κ : Type*} [Keyed ρ κ]

/-- Rows with distinct keys. -/
structure Table (ρ : Type*) {κ : Type*} [Keyed ρ κ] where
  rows : List ρ
  nodup : (rows.map key).Nodup

/-- `UPDATE … SET set WHERE applies`. -/
structure Update (ρ : Type*) {κ : Type*} [Keyed ρ κ] where
  applies : ρ → Bool
  set : ρ → ρ
  key_set : ∀ r, key (set r) = key r

/-- What an update makes of one row. -/
def Update.apply (u : Update ρ) (r : ρ) : ρ := if u.applies r then u.set r else r

theorem Update.key_apply (u : Update ρ) (r : ρ) : key (u.apply r) = key r := by
  unfold Update.apply
  split
  · exact u.key_set r
  · rfl

theorem Update.apply_of_applies {u : Update ρ} {r : ρ} (h : u.applies r = true) :
    u.apply r = u.set r := if_pos h

theorem Update.apply_of_not {u : Update ρ} {r : ρ} (h : u.applies r = false) :
    u.apply r = r := if_neg (by simp [h])

namespace Table

def empty : Table ρ := ⟨[], List.nodup_nil⟩

/-- The table after an update. -/
def update (t : Table ρ) (u : Update ρ) : Table ρ where
  rows := t.rows.map u.apply
  nodup := by
    have : key ∘ u.apply = key := funext u.key_apply
    rw [List.map_map, this]
    exact t.nodup

theorem update_eq_self {t : Table ρ} {u : Update ρ} (h : ∀ r ∈ t.rows, u.applies r = false) :
    t.update u = t := by
  have hrows : t.rows.map u.apply = t.rows :=
    (List.map_congr_left (fun r hr => Update.apply_of_not (h r hr))).trans (List.map_id' _)
  unfold update
  congr

/-- Whether an update matches some row: what `RETURNING` tells its caller. -/
def hits (t : Table ρ) (u : Update ρ) : Bool := t.rows.any u.applies

variable [DecidableEq κ]

/-- The row with key `k`. -/
def find? (t : Table ρ) (k : κ) : Option ρ := t.rows.find? (fun r => key r = k)

/-- The table with one more row; `none` when the key is taken. -/
def insert? (t : Table ρ) (r : ρ) : Option (Table ρ) :=
  if h : key r ∈ t.rows.map key then none
  else some ⟨t.rows ++ [r], by
    rw [List.map_append]
    exact List.Nodup.append t.nodup (List.nodup_singleton _)
      (List.disjoint_singleton.mpr h)⟩

/-- The keys of a result set: distinct, all of rows among `cands`, and as many
as `LIMIT` lets through.  Which rows these are is the database's choice. -/
def picks (cands : List ρ) (limit : Nat) (ks : List κ) : Bool :=
  decide ks.Nodup && ks.all (fun k => decide (k ∈ cands.map key)) &&
    ks.length == min limit cands.length

/-! ### Rows and keys -/

theorem key_of_find? {t : Table ρ} {k : κ} {r : ρ} (h : t.find? k = some r) : key r = k := by
  have := List.find?_some h
  simpa using this

theorem mem_of_find? {t : Table ρ} {k : κ} {r : ρ} (h : t.find? k = some r) : r ∈ t.rows :=
  List.mem_of_find?_eq_some h

theorem find?_key_iff {t : Table ρ} {r : ρ} : t.find? (key r) = some r ↔ r ∈ t.rows := by
  refine ⟨mem_of_find?, fun hr => ?_⟩
  cases h : t.find? (key r) with
  | none =>
    have := List.find?_eq_none.mp h r hr
    simp at this
  | some r' =>
    rw [List.inj_on_of_nodup_map t.nodup (mem_of_find? h) hr (key_of_find? h)]

theorem find?_eq_none_iff {t : Table ρ} {k : κ} : t.find? k = none ↔ k ∉ t.rows.map key := by
  rw [find?, List.find?_eq_none]
  simp only [decide_eq_true_eq, List.mem_map, not_exists, not_and]

/-! ### Updates -/

/-- **An update acts on each row by itself.** -/
theorem find?_update (t : Table ρ) (u : Update ρ) (k : κ) :
    (t.update u).find? k = (t.find? k).map u.apply := by
  rw [find?, update, List.find?_map]
  congr 1
  refine congrArg (List.find? · t.rows) (funext fun r => ?_)
  simp only [Function.comp_apply, u.key_apply]

theorem hits_iff {t : Table ρ} {u : Update ρ} :
    t.hits u = true ↔ ∃ k r, t.find? k = some r ∧ u.applies r = true := by
  rw [hits, List.any_eq_true]
  constructor
  · rintro ⟨r, hr, ha⟩
    exact ⟨key r, r, find?_key_iff.mpr hr, ha⟩
  · rintro ⟨_, r, hf, ha⟩
    exact ⟨r, mem_of_find? hf, ha⟩

theorem hits_iff_of_key {t : Table ρ} {u : Update ρ} {k : κ}
    (hk : ∀ r, u.applies r = true → key r = k) :
    t.hits u = true ↔ ∃ r, t.find? k = some r ∧ u.applies r = true := by
  rw [hits_iff]
  constructor
  · rintro ⟨k', r, hf, ha⟩
    obtain rfl : k' = k := (key_of_find? hf).symm.trans (hk r ha)
    exact ⟨r, hf, ha⟩
  · rintro ⟨r, hf, ha⟩
    exact ⟨k, r, hf, ha⟩

/-! ### Inserts -/

/-- **An insert adds one row and touches no other.** -/
theorem find?_insert? {t t' : Table ρ} {r : ρ} (h : t.insert? r = some t') :
    t.find? (key r) = none ∧ ∀ k, t'.find? k = if k = key r then some r else t.find? k := by
  unfold insert? at h
  split at h
  · cases h
  · rename_i hn
    cases h
    have hfree : t.find? (key r) = none := find?_eq_none_iff.mpr hn
    refine ⟨hfree, fun k => ?_⟩
    simp only [find?, List.find?_append, List.find?_singleton, decide_eq_true_eq]
    by_cases hk : key r = k
    · subst hk
      rw [show t.rows.find? (fun x => decide (key x = key r)) = none from hfree,
        if_pos rfl, Option.none_or]
    · rw [if_neg hk, if_neg (fun h => hk h.symm), Option.or_none]

/-! ### Selections -/

theorem picks_nodup {cands : List ρ} {limit : Nat} {ks : List κ}
    (h : picks cands limit ks = true) : ks.Nodup := by
  simp only [picks, Bool.and_eq_true, decide_eq_true_eq] at h
  exact h.1.1

theorem picks_mem {cands : List ρ} {limit : Nat} {ks : List κ}
    (h : picks cands limit ks = true) {k : κ} (hk : k ∈ ks) : ∃ r ∈ cands, key r = k := by
  simp only [picks, Bool.and_eq_true, List.all_eq_true, decide_eq_true_eq] at h
  exact List.mem_map.mp (h.1.2 k hk)

/-- The row a picked key stands for, when the candidates are rows of the table. -/
theorem find?_of_picks {t : Table ρ} {p : ρ → Bool} {limit : Nat} {ks : List κ}
    (h : picks (t.rows.filter p) limit ks = true) {k : κ} (hk : k ∈ ks) :
    ∃ r, t.find? k = some r ∧ p r = true := by
  obtain ⟨r, hr, rfl⟩ := picks_mem h hk
  obtain ⟨hr, hp⟩ := List.mem_filter.mp hr
  exact ⟨r, find?_key_iff.mpr hr, hp⟩

theorem picks_keys {cands : List ρ} {limit : Nat} (hn : (cands.map key).Nodup)
    (hle : cands.length ≤ limit) : picks cands limit (cands.map key) = true := by
  simp only [picks, Bool.and_eq_true, decide_eq_true_eq, List.all_eq_true, beq_iff_eq,
    List.length_map]
  exact ⟨⟨hn, fun k hk => hk⟩, (Nat.min_eq_right hle).symm⟩

theorem exists_picks_mem {cands : List ρ} {limit : Nat} (hn : (cands.map key).Nodup)
    (hl : 1 ≤ limit) {r : ρ} (hr : r ∈ cands) :
    ∃ ks, picks cands limit ks = true ∧ key r ∈ ks := by
  obtain ⟨l, l', rfl⟩ := List.append_of_mem hr
  have hperm : (l ++ r :: l').Perm (r :: (l ++ l')) := List.perm_middle
  refine ⟨((r :: (l ++ l')).take limit).map key, ?_, ?_⟩
  · simp only [picks, Bool.and_eq_true, decide_eq_true_eq, List.all_eq_true, beq_iff_eq,
      List.length_map, List.length_take]
    refine ⟨⟨?_, fun k hk => ?_⟩, by rw [hperm.length_eq]⟩
    · exact ((hperm.map key).nodup_iff.mp hn).sublist ((List.take_sublist _ _).map key)
    · exact (hperm.map key).mem_iff.mpr (((List.take_sublist _ _).map key).subset hk)
  · obtain ⟨n, rfl⟩ := Nat.exists_eq_add_of_le' hl
    exact List.mem_map_of_mem List.mem_cons_self

/-- **Nothing is left out** when the limit lets all the candidates through. -/
theorem mem_of_picks {cands : List ρ} {limit : Nat} {ks : List κ}
    (h : picks cands limit ks = true) (hle : cands.length ≤ limit) {r : ρ} (hr : r ∈ cands) :
    key r ∈ ks := by
  have hsub : ks ⊆ cands.map key := fun k hk => by
    obtain ⟨r, hr, rfl⟩ := picks_mem h hk
    exact List.mem_map_of_mem hr
  have hlen : (cands.map key).length ≤ ks.length := by
    simp only [picks, Bool.and_eq_true, beq_iff_eq] at h
    exact Nat.le_of_eq (by rw [List.length_map, h.2, Nat.min_eq_right hle])
  have hperm := (List.Nodup.subperm (picks_nodup h) hsub).perm_of_length_le hlen
  exact hperm.mem_iff.mpr (List.mem_map_of_mem hr)

theorem filter_length_le {t t' : Table ρ} {p : ρ → Bool}
    (h : ∀ k r', t'.find? k = some r' → p r' = true → ∃ r, t.find? k = some r ∧ p r = true) :
    (t'.rows.filter p).length ≤ (t.rows.filter p).length := by
  have hnodup : ((t'.rows.filter p).map key).Nodup :=
    t'.nodup.sublist (List.filter_sublist.map key)
  have hsub : (t'.rows.filter p).map key ⊆ (t.rows.filter p).map key := by
    intro k hk
    obtain ⟨r', hr', rfl⟩ := List.mem_map.mp hk
    obtain ⟨hmem, hp⟩ := List.mem_filter.mp hr'
    obtain ⟨r, hr, hpr⟩ := h _ r' (find?_key_iff.mpr hmem) hp
    rw [← key_of_find? hr]
    exact List.mem_map_of_mem (List.mem_filter.mpr ⟨mem_of_find? hr, hpr⟩)
  have hle := List.Nodup.length_le_of_subset hnodup hsub
  rwa [List.length_map, List.length_map] at hle

/-! ### Counting rows -/

variable {t t' : Table ρ} {p : ρ → Bool}

/-- The keys of the rows with `p`. -/
def keysOf (p : ρ → Bool) (t : Table ρ) : Finset κ := ((t.rows.filter p).map key).toFinset

theorem mem_keysOf {k : κ} : k ∈ keysOf p t ↔ ∃ r, t.find? k = some r ∧ p r = true := by
  simp only [keysOf, List.mem_toFinset, List.mem_map, List.mem_filter]
  constructor
  · rintro ⟨r, ⟨hr, hp⟩, rfl⟩
    exact ⟨r, find?_key_iff.mpr hr, hp⟩
  · rintro ⟨r, hr, hp⟩
    exact ⟨r, ⟨mem_of_find? hr, hp⟩, key_of_find? hr⟩

theorem card_keysOf : (keysOf p t).card = t.rows.countP p := by
  rw [keysOf, List.toFinset_card_of_nodup, List.length_map, List.countP_eq_length_filter]
  exact t.nodup.sublist (List.filter_sublist.map _)

theorem countP_congr {q : ρ → Bool} (h : ∀ k, (∃ r, t'.find? k = some r ∧ p r = true) ↔
    ∃ r, t.find? k = some r ∧ q r = true) : t'.rows.countP p = t.rows.countP q := by
  rw [← card_keysOf, ← card_keysOf]
  congr 1
  ext k
  rw [mem_keysOf, mem_keysOf, h]

/-- **One row gets `p`**, and the others are as they were. -/
theorem countP_succ {k : κ} {r : ρ} (hr : t'.find? k = some r) (hp : p r = true)
    (hno : ∀ r, t.find? k = some r → p r = false) (h : ∀ j, j ≠ k → t'.find? j = t.find? j) :
    t'.rows.countP p = t.rows.countP p + 1 := by
  have hk : k ∉ keysOf p t := by
    intro hk
    obtain ⟨x, hx, hpx⟩ := mem_keysOf.mp hk
    rw [hno x hx] at hpx
    cases hpx
  rw [← card_keysOf, ← card_keysOf, ← Finset.card_insert_of_notMem hk]
  congr 1
  ext j
  rw [Finset.mem_insert, mem_keysOf, mem_keysOf]
  by_cases hj : j = k
  · subst hj
    simp [hr, hp]
  · rw [h j hj]
    simp [hj]

theorem sum_find?_any {ks : Finset κ} (hks : ∀ k r, t.find? k = some r → k ∈ ks) :
    ∑ k ∈ ks, (if (t.find? k).any p then 1 else 0) = t.rows.countP p := by
  rw [← card_keysOf, ← Finset.card_filter]
  congr 1
  ext k
  rw [Finset.mem_filter, mem_keysOf, Option.any_eq_true]
  constructor
  · intro h
    exact h.2
  · rintro ⟨r, hr, hp⟩
    exact ⟨hks k r hr, r, hr, hp⟩

end Table

end KeyedTable
