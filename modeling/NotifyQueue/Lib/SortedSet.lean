import Mathlib.Data.List.Sort
import Mathlib.Data.Prod.Lex

/-!
# Sorted sets

A `SortedSet` holds members with a score each, ordered by score and then by
member, as `ZADD` and `ZPOPMIN` see them.  The order and the uniqueness of the
members are part of the type.  `mem_add` and `mem_of_popMin` say what the two
operations do to membership, `score?_add` and `score?_popMin` what they do to
the scores, and `le_of_popMin` that a member with the least score is popped.
-/

/-- Members with scores, sorted by score and then by member, no member twice. -/
structure SortedSet (σ α : Type*) [LinearOrder σ] [LinearOrder α] where
  entries : List (σ ×ₗ α)
  sorted : entries.Pairwise (· ≤ ·)
  nodup : (entries.map (fun e => (ofLex e).2)).Nodup

namespace SortedSet

variable {σ α : Type*} [LinearOrder σ] [LinearOrder α]

def empty : SortedSet σ α := ⟨[], List.Pairwise.nil, List.nodup_nil⟩

instance : Membership α (SortedSet σ α) where
  mem z a := a ∈ z.entries.map (fun e => (ofLex e).2)

instance (a : α) (z : SortedSet σ α) : Decidable (a ∈ z) :=
  inferInstanceAs (Decidable (a ∈ z.entries.map (fun e => (ofLex e).2)))

/-- The entries of all members but `a`. -/
def others (z : SortedSet σ α) (a : α) : List (σ ×ₗ α) :=
  z.entries.filter (fun e => decide ((ofLex e).2 ≠ a))

/-- `ZADD`: give `a` the score `s`, whether or not it is a member already. -/
def add (z : SortedSet σ α) (a : α) (s : σ) : SortedSet σ α where
  entries := (z.others a).orderedInsert (· ≤ ·) (toLex (s, a))
  sorted := (z.sorted.filter _).orderedInsert _ _
  nodup := by
    have hp := (List.perm_orderedInsert (· ≤ ·) (toLex (s, a)) (z.others a)).map
      (fun e => (ofLex e).2)
    rw [hp.nodup_iff, List.map_cons, List.nodup_cons]
    refine ⟨fun hm => ?_, z.nodup.sublist (List.filter_sublist.map _)⟩
    obtain ⟨e, he, hea⟩ := List.mem_map.mp hm
    have := (List.mem_filter.mp he).2
    simp_all

/-- `ZPOPMIN`: the least entry's member, and the set without it. -/
def popMin (z : SortedSet σ α) : Option (α × SortedSet σ α) :=
  match hz : z.entries with
  | [] => none
  | e :: rest => some ((ofLex e).2, {
      entries := rest
      sorted := (hz ▸ z.sorted : (e :: rest).Pairwise (· ≤ ·)).of_cons
      nodup := (List.nodup_cons.mp (by have := z.nodup; rwa [hz] at this)).2 })

/-! ### Membership -/

theorem mem_iff {z : SortedSet σ α} {a : α} :
    a ∈ z ↔ ∃ e ∈ z.entries, (ofLex e).2 = a := List.mem_map

/-- **`ZADD` makes its member a member and keeps all the others.** -/
theorem mem_add {z : SortedSet σ α} {a b : α} {s : σ} : b ∈ z.add a s ↔ b = a ∨ b ∈ z := by
  simp only [mem_iff, add, List.mem_orderedInsert, others, List.mem_filter, decide_eq_true_eq]
  constructor
  · rintro ⟨e, rfl | ⟨he, -⟩, rfl⟩
    · exact Or.inl rfl
    · exact Or.inr ⟨e, he, rfl⟩
  · rintro (rfl | ⟨e, he, rfl⟩)
    · exact ⟨toLex (s, b), Or.inl rfl, rfl⟩
    · by_cases hea : (ofLex e).2 = a
      · exact ⟨toLex (s, a), Or.inl rfl, hea.symm⟩
      · exact ⟨e, Or.inr ⟨he, hea⟩, rfl⟩

theorem popMin_eq {z z' : SortedSet σ α} {a : α} (h : z.popMin = some (a, z')) :
    ∃ s, z.entries = toLex (s, a) :: z'.entries := by
  unfold popMin at h
  split at h
  · cases h
  · rename_i e rest hz
    cases h
    exact ⟨(ofLex e).1, hz⟩

/-- **`ZPOPMIN` takes away exactly the member it returns.** -/
theorem mem_of_popMin {z z' : SortedSet σ α} {a b : α} (h : z.popMin = some (a, z')) :
    b ∈ z ↔ b = a ∨ b ∈ z' := by
  obtain ⟨s, hz⟩ := popMin_eq h
  simp only [mem_iff, hz, List.mem_cons, exists_eq_or_imp]
  exact or_congr_left eq_comm

theorem popMin_of_mem {z : SortedSet σ α} {a : α} (h : a ∈ z) :
    ∃ b z', z.popMin = some (b, z') := by
  obtain ⟨e, he, -⟩ := mem_iff.mp h
  unfold popMin
  split
  · rename_i hz
    rw [hz] at he
    cases he
  · exact ⟨_, _, rfl⟩

theorem not_mem_of_popMin {z z' : SortedSet σ α} {a : α} (h : z.popMin = some (a, z')) :
    a ∉ z' := by
  obtain ⟨s, hz⟩ := popMin_eq h
  have hn := z.nodup
  rw [hz, List.map_cons, List.nodup_cons] at hn
  exact hn.1

/-! ### Scores -/

/-- The score of a member. -/
def score? (z : SortedSet σ α) (a : α) : Option σ :=
  (z.entries.find? (fun e => decide ((ofLex e).2 = a))).map (fun e => (ofLex e).1)

theorem score?_eq_some {z : SortedSet σ α} {a : α} {s : σ} :
    z.score? a = some s ↔ toLex (s, a) ∈ z.entries := by
  rw [score?, Option.map_eq_some_iff]
  constructor
  · rintro ⟨e, he, rfl⟩
    obtain rfl : (ofLex e).2 = a := by simpa using List.find?_some he
    exact List.mem_of_find?_eq_some he
  · intro hm
    cases hf : z.entries.find? (fun e => decide ((ofLex e).2 = a)) with
    | none =>
      have := List.find?_eq_none.mp hf _ hm
      simp at this
    | some e =>
      have hea : (ofLex e).2 = a := by simpa using List.find?_some hf
      obtain rfl : e = toLex (s, a) :=
        List.inj_on_of_nodup_map z.nodup (List.mem_of_find?_eq_some hf) hm hea
      exact ⟨_, rfl, rfl⟩

theorem mem_of_score? {z : SortedSet σ α} {a : α} {s : σ} (h : z.score? a = some s) : a ∈ z :=
  mem_iff.mpr ⟨_, score?_eq_some.mp h, rfl⟩

theorem score?_of_mem {z : SortedSet σ α} {a : α} (h : a ∈ z) : ∃ s, z.score? a = some s := by
  obtain ⟨e, he, rfl⟩ := mem_iff.mp h
  exact ⟨(ofLex e).1, score?_eq_some.mpr he⟩

/-- **`ZADD` sets the score of its member and of no other.** -/
theorem score?_add {z : SortedSet σ α} {a b : α} {s v : σ} :
    (z.add a s).score? b = some v ↔ b = a ∧ v = s ∨ b ≠ a ∧ z.score? b = some v := by
  simp only [score?_eq_some, add, List.mem_orderedInsert, others, List.mem_filter,
    decide_eq_true_eq]
  constructor
  · rintro (h | ⟨h, hb⟩)
    · obtain ⟨rfl, rfl⟩ := Prod.mk.inj (congrArg ofLex h)
      exact Or.inl ⟨rfl, rfl⟩
    · exact Or.inr ⟨hb, h⟩
  · rintro (⟨rfl, rfl⟩ | ⟨hb, h⟩)
    · exact Or.inl rfl
    · exact Or.inr ⟨h, hb⟩

/-- **`ZPOPMIN` changes no score of a member that stays.** -/
theorem score?_popMin {z z' : SortedSet σ α} {a b : α} {v : σ} (h : z.popMin = some (a, z'))
    (hv : z'.score? b = some v) : z.score? b = some v := by
  obtain ⟨s, hz⟩ := popMin_eq h
  rw [score?_eq_some] at hv ⊢
  rw [hz]
  exact List.mem_cons_of_mem _ hv

/-- **`ZPOPMIN` takes a member with the least score.** -/
theorem le_of_popMin {z z' : SortedSet σ α} {a b : α} {s v : σ} (h : z.popMin = some (a, z'))
    (hs : z.score? a = some s) (hv : z.score? b = some v) : s ≤ v := by
  obtain ⟨s₀, hz⟩ := popMin_eq h
  have ha : toLex (s₀, a) ∈ z.entries := by
    rw [hz]
    exact List.mem_cons_self
  cases (score?_eq_some.mpr ha).symm.trans hs
  have hb := score?_eq_some.mp hv
  rw [hz] at hb
  rcases List.mem_cons.mp hb with hb | hb
  · exact le_of_eq (Prod.mk.inj (congrArg ofLex hb)).1.symm
  · have hle : toLex (s, a) ≤ toLex (v, b) :=
      List.rel_of_pairwise_cons (hz ▸ z.sorted) hb
    rcases Prod.Lex.le_iff.mp hle with hlt | ⟨heq, -⟩
    · exact hlt.le
    · exact le_of_eq heq

end SortedSet
