import Mathlib.Algebra.Ring.Nat
import Mathlib.Data.List.Basic

/-!
# Text put together from parts

Numerals of a fixed width, as a date is printed, and texts joined by a separator.
A numeral of known width can be read back (`ofDigitChars_fixed`), and a text joined
to one without the separator can be taken apart at the last separator
(`append_cons_inj_right`), whatever it contains itself.
-/

namespace Text

/-! ### Numerals of a fixed width -/

/-- The last `w` decimal digits of `n`. -/
def fixed : Nat → Nat → List Char
  | 0, _ => []
  | w + 1, n => fixed w (n / 10) ++ [Nat.digitChar (n % 10)]

@[simp] theorem length_fixed (w n : Nat) : (fixed w n).length = w := by
  induction w generalizing n with
  | zero => rfl
  | succ w ih => rw [fixed, List.length_append, ih, List.length_singleton]

theorem isDigit_of_mem_fixed {w n : Nat} {c : Char} (h : c ∈ fixed w n) : c.isDigit = true := by
  induction w generalizing n with
  | zero => cases h
  | succ w ih =>
    rw [fixed, List.mem_append, List.mem_singleton] at h
    rcases h with h | rfl
    · exact ih h
    · rw [Nat.isDigit_digitChar]
      exact decide_eq_true (Nat.mod_lt n (by decide))

/-- **A numeral is read back**, up to the digits that did not fit. -/
theorem ofDigitChars_fixed (w n : Nat) : Nat.ofDigitChars 10 (fixed w n) 0 = n % 10 ^ w := by
  induction w generalizing n with
  | zero => rw [fixed, Nat.ofDigitChars_nil, Nat.pow_zero, Nat.mod_one]
  | succ w ih =>
    have hlt : n % 10 < 10 := Nat.mod_lt n (by decide)
    rw [fixed, Nat.ofDigitChars_append, ih, Nat.ofDigitChars_cons_digitChar_of_lt_ten hlt,
      Nat.ofDigitChars_nil, Nat.pow_succ', Nat.mod_mul]
    omega

theorem fixed_inj {w n m : Nat} (hn : n < 10 ^ w) (hm : m < 10 ^ w)
    (h : fixed w n = fixed w m) : n = m := by
  have hread := congrArg (fun s => Nat.ofDigitChars 10 s 0) h
  simpa only [ofDigitChars_fixed, Nat.mod_eq_of_lt hn, Nat.mod_eq_of_lt hm] using hread

theorem toDigits_inj {n m : Nat} (h : Nat.toDigits 10 n = Nat.toDigits 10 m) : n = m := by
  have hread := congrArg (fun s => Nat.ofDigitChars 10 s 0) h
  simpa using hread

/-! ### Separators -/

variable {α : Type*} {c : α} {r r' s s' x : List α}

theorem eq_nil_of_cons_eq_append (hs : c ∉ s) (h : c :: s = x ++ c :: s') : x = [] := by
  cases x with
  | nil => rfl
  | cons y x =>
    rw [List.cons_append, List.cons.injEq] at h
    exact absurd (h.2 ▸ List.mem_append_right x List.mem_cons_self) hs

/-- **The last separator of a text** is where it is joined to a text without separators. -/
theorem append_cons_inj_right (hs : c ∉ s) (hs' : c ∉ s') (h : r ++ c :: s = r' ++ c :: s') :
    r = r' ∧ s = s' := by
  rcases List.append_eq_append_iff.mp h with ⟨x, rfl, hx⟩ | ⟨x, rfl, hx⟩
  · obtain rfl := eq_nil_of_cons_eq_append hs hx
    simpa using hx
  · obtain rfl := eq_nil_of_cons_eq_append hs' hx
    simpa using hx.symm

end Text
