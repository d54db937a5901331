import Mathlib.Algebra.Order.Round
import Mathlib.Data.Int.Log
import Mathlib.Tactic.Linarith
import Mathlib.Tactic.Ring

/-!
# Rounding to significant bits

`toBits p x` is the number of `p` significant bits nearest to `x`, the one with an
even last bit when two are: what an operation on binary floating point numbers
makes of its exact result, as long as the exponent is in range.  `toBits_mono`
says that rounding keeps the order, and `abs_sub_toBits_le` how far it goes.
-/

namespace Rounding

variable {K : Type*} [Field K] [LinearOrder K] [IsStrictOrderedRing K] [FloorRing K]

/-- The integer nearest to `x`, the even one when two are. -/
def nearestEven (x : K) : ℤ :=
  if Int.fract x = 1 / 2 ∧ Even ⌊x⌋ then ⌊x⌋ else round x

/-- The exponent of the last of `p` bits of `x`. -/
def lastBit (p : ℕ) (x : K) : ℤ := Int.log 2 |x| + 1 - p

/-- `x` rounded to `p` significant bits. -/
def toBits (p : ℕ) (x : K) : K := nearestEven (x / 2 ^ lastBit p x) * 2 ^ lastBit p x

variable {x y : K} {z : ℤ} {p : ℕ}

/-! ### The nearest integer -/

theorem abs_sub_nearestEven (x : K) : |x - nearestEven x| ≤ 1 / 2 := by
  unfold nearestEven
  split
  · rename_i h
    rw [Int.self_sub_floor, h.1, abs_of_pos one_half_pos]
  · exact abs_sub_round x

/-- **Nearest, and even between two**: what `nearestEven` returns is determined by
these. -/
theorem nearestEven_eq (h : |x - z| ≤ 1 / 2) (heven : |x - z| = 1 / 2 → Even z) :
    nearestEven x = z := by
  obtain ⟨hlo, hhi⟩ := abs_le.mp h
  unfold nearestEven
  by_cases hx : x = z + 1 / 2
  · -- half above `z`, which is even
    have hfloor : ⌊x⌋ = z := Int.floor_eq_iff.mpr ⟨by linarith, by linarith⟩
    have hz : Even z := heven (by rw [hx, add_sub_cancel_left, abs_of_pos one_half_pos])
    rw [if_pos ⟨by rw [Int.fract, hfloor, hx, add_sub_cancel_left], hfloor.symm ▸ hz⟩, hfloor]
  · have hlt : x < z + 1 / 2 := lt_of_le_of_ne (by linarith) hx
    have hround : round x = z := round_eq_iff.mpr ⟨by linarith, hlt⟩
    refine (if_neg ?_).trans hround
    -- half below `z`, which is even, so that the integer below is odd
    rintro ⟨hfract, hfloor⟩
    have hxf : x = ⌊x⌋ + 1 / 2 := by
      rw [← hfract, Int.floor_add_fract]
    have hz : z = ⌊x⌋ + 1 := by
      have h₁ : (⌊x⌋ : K) < z := by linarith
      have h₂ : (z : K) < ⌊x⌋ + 2 := by linarith
      have h₁' : ⌊x⌋ < z := by exact_mod_cast h₁
      have h₂' : z < ⌊x⌋ + 2 := by exact_mod_cast h₂
      omega
    have hdist : |x - z| = 1 / 2 := by
      rw [hz, Int.cast_add, Int.cast_one, abs_sub_comm,
        show (⌊x⌋ : K) + 1 - x = 1 / 2 by linarith, abs_of_pos one_half_pos]
    have hodd := heven hdist
    rw [hz] at hodd
    exact (Int.even_add_one.mp hodd) hfloor

theorem even_of_abs_sub_nearestEven (h : |x - nearestEven x| = 1 / 2) : Even (nearestEven x) := by
  unfold nearestEven at h ⊢
  split
  · rename_i hx
    exact hx.2
  · rename_i hx
    rw [if_neg hx] at h
    -- `round` has gone up from an odd integer
    have hfract : Int.fract x = 1 / 2 := by
      rw [abs_sub_round_eq_min] at h
      rcases min_choice (Int.fract x) (1 - Int.fract x) with hm | hm <;> rw [hm] at h <;> linarith
    have hround : round x = ⌊x⌋ + 1 := by
      rw [round_eq_iff, Int.cast_add, Int.cast_one]
      have hself := Int.floor_add_fract x
      constructor <;> linarith
    rw [hround, Int.even_add_one]
    exact fun he => hx ⟨hfract, he⟩

@[simp] theorem nearestEven_intCast (z : ℤ) : nearestEven (z : K) = z :=
  nearestEven_eq (by simp) (fun h => by simp at h)

theorem nearestEven_neg (x : K) : nearestEven (-x) = -nearestEven x := by
  have hdist : |-x - (-nearestEven x : ℤ)| = |x - nearestEven x| := by
    rw [Int.cast_neg, ← neg_sub', abs_neg]
  refine nearestEven_eq (hdist.trans_le (abs_sub_nearestEven x)) (fun h => ?_)
  exact (even_of_abs_sub_nearestEven (hdist.symm.trans h)).neg

theorem nearestEven_mono (h : x ≤ y) : nearestEven x ≤ nearestEven y := by
  obtain ⟨hx, -⟩ := abs_le.mp (abs_sub_nearestEven x)
  obtain ⟨-, hy⟩ := abs_le.mp (abs_sub_nearestEven y)
  by_contra hlt
  rw [not_le] at hlt
  have hcast : (nearestEven y : K) + 1 ≤ nearestEven x := by exact_mod_cast hlt
  obtain rfl : x = y := by linarith
  exact lt_irrefl _ hlt

theorem le_nearestEven (h : (z : K) ≤ x) : z ≤ nearestEven x := by
  simpa using nearestEven_mono h

theorem nearestEven_le (h : x ≤ z) : nearestEven x ≤ z := by
  simpa using nearestEven_mono h

/-! ### Significant bits -/

private theorem two_zpow_pos (e : ℤ) : (0 : K) < 2 ^ e := zpow_pos two_pos e

@[simp] theorem toBits_zero (p : ℕ) : toBits p (0 : K) = 0 := by
  have h := nearestEven_intCast (K := K) 0
  rw [Int.cast_zero] at h
  rw [toBits, zero_div, h, Int.cast_zero, zero_mul]

theorem toBits_neg (p : ℕ) (x : K) : toBits p (-x) = -toBits p x := by
  rw [toBits, lastBit, abs_neg, neg_div, nearestEven_neg, Int.cast_neg, neg_mul]
  rfl

/-- **How far rounding goes**: at most half a unit of the last bit. -/
theorem abs_sub_toBits (p : ℕ) (x : K) : |x - toBits p x| ≤ 2 ^ (lastBit p x - 1) := by
  have hpos := two_zpow_pos (K := K) (lastBit p x)
  calc |x - toBits p x|
      = |(x / 2 ^ lastBit p x - nearestEven (x / 2 ^ lastBit p x)) * 2 ^ lastBit p x| := by
        rw [sub_mul, div_mul_cancel₀ _ hpos.ne', toBits]
    _ = |x / 2 ^ lastBit p x - nearestEven (x / 2 ^ lastBit p x)| * 2 ^ lastBit p x := by
        rw [abs_mul, abs_of_pos hpos]
    _ ≤ 1 / 2 * 2 ^ lastBit p x :=
        mul_le_mul_of_nonneg_right (abs_sub_nearestEven _) hpos.le
    _ = 2 ^ (lastBit p x - 1) := by
        rw [zpow_sub_one₀ two_ne_zero, mul_comm, one_div]

/-- The same for a number below a power of two. -/
theorem abs_sub_toBits_le {n : ℤ} (h : |x| < 2 ^ n) : |x - toBits p x| ≤ 2 ^ (n - p - 1) := by
  by_cases hx : x = 0
  · rw [hx, toBits_zero, sub_zero, abs_zero]
    exact (two_zpow_pos _).le
  · have hlog : Int.log 2 |x| < n :=
      (Int.lt_zpow_iff_log_lt one_lt_two (abs_pos.mpr hx)).mp (by exact_mod_cast h)
    refine (abs_sub_toBits p x).trans (zpow_le_zpow_right₀ one_le_two ?_)
    unfold lastBit
    linarith

/-- A number of `p` bits, of the exponent of `x` or the next power of two. -/
theorem toBits_bounds (hp : 0 < p) (hx : 0 < x) :
    2 ^ Int.log 2 x ≤ toBits p x ∧ toBits p x ≤ 2 ^ (Int.log 2 x + 1) := by
  have hpos := two_zpow_pos (K := K) (lastBit p x)
  have hlog : lastBit p x = Int.log 2 x + 1 - p := by rw [lastBit, abs_of_pos hx]
  have hsplit : ∀ n : ℕ, (2 : K) ^ (lastBit p x + n) = ((2 ^ n : ℤ) : K) * 2 ^ lastBit p x := by
    intro n
    rw [zpow_add₀ two_ne_zero, mul_comm, zpow_natCast]
    norm_cast
  have hlo : (2 : K) ^ Int.log 2 x = ((2 ^ (p - 1) : ℤ) : K) * 2 ^ lastBit p x := by
    rw [← hsplit]
    congr 1
    omega
  have hhi : (2 : K) ^ (Int.log 2 x + 1) = ((2 ^ p : ℤ) : K) * 2 ^ lastBit p x := by
    rw [← hsplit]
    congr 1
    omega
  have hself : (2 : K) ^ Int.log 2 x ≤ x := by
    exact_mod_cast Int.zpow_log_le_self one_lt_two hx
  have hlt : x < (2 : K) ^ (Int.log 2 x + 1) := by
    exact_mod_cast Int.lt_zpow_succ_log_self one_lt_two x
  rw [hlo] at hself ⊢
  rw [hhi] at hlt ⊢
  constructor <;> refine mul_le_mul_of_nonneg_right ?_ hpos.le <;> rw [Int.cast_le]
  · exact le_nearestEven ((le_div_iff₀ hpos).mpr hself)
  · exact nearestEven_le ((div_le_iff₀ hpos).mpr hlt.le)

theorem toBits_nonneg (hx : 0 ≤ x) : 0 ≤ toBits p x := by
  refine mul_nonneg ?_ (two_zpow_pos _).le
  have h : (0 : ℤ) ≤ nearestEven (x / 2 ^ lastBit p x) :=
    le_nearestEven (by rw [Int.cast_zero]; exact div_nonneg hx (two_zpow_pos _).le)
  exact_mod_cast h

theorem toBits_le_toBits_of_pos (hp : 0 < p) (hx : 0 < x) (h : x ≤ y) :
    toBits p x ≤ toBits p y := by
  have hy : 0 < y := hx.trans_le h
  rcases (Int.log_mono_right (b := 2) hx h).lt_or_eq with hlt | heq
  · -- a power of two lies between the two results
    calc toBits p x ≤ 2 ^ (Int.log 2 x + 1) := (toBits_bounds hp hx).2
      _ ≤ 2 ^ Int.log 2 y := zpow_le_zpow_right₀ one_le_two hlt
      _ ≤ toBits p y := (toBits_bounds hp hy).1
  · have hbit : lastBit p x = lastBit p y := by
      rw [lastBit, lastBit, abs_of_pos hx, abs_of_pos hy, heq]
    have hpos := two_zpow_pos (K := K) (lastBit p y)
    rw [toBits, toBits, hbit]
    refine mul_le_mul_of_nonneg_right ?_ hpos.le
    exact_mod_cast nearestEven_mono (div_le_div_of_nonneg_right h hpos.le)

/-- **Rounding keeps the order.** -/
theorem toBits_mono (hp : 0 < p) : Monotone (toBits p : K → K) := by
  intro x y h
  rcases lt_or_ge 0 x with hx | hx
  · exact toBits_le_toBits_of_pos hp hx h
  · rcases lt_or_ge y 0 with hy | hy
    · have hneg := toBits_le_toBits_of_pos hp (neg_pos.mpr hy) (neg_le_neg h)
      rwa [toBits_neg, toBits_neg, neg_le_neg_iff] at hneg
    · -- zero lies between the two results
      have hneg := toBits_nonneg (p := p) (neg_nonneg.mpr hx)
      rw [toBits_neg, neg_nonneg] at hneg
      exact hneg.trans (toBits_nonneg hy)

end Rounding
