import Mathlib
import Raidex.Number

/-!
# Raidex.ExactNumber

The rational number that a `Number` stands for; `inf` and `nan` stand for none.

* `le_exact`, `positive_exact`: comparisons with an `int` are those of rational numbers.
* `total`: the exact sum of some numbers.
-/

namespace Raidex

namespace Double

/-- Every finite `float` is a fraction over a power of two. -/
def exact (f : Double) : Option ℚ :=
  match f.unpack with
  | .notANumber | .infinity _ => none
  | .zero _ => some 0
  | .finite sign mantissa exponent _ =>
    let magnitude : Int := mantissa * 2 ^ exponent.toNat
    match sign with
    | .positive => some (magnitude / 2 ^ (-exponent).toNat)
    | .negative => some ((-magnitude : Int) / 2 ^ (-exponent).toNat)

theorem compare_div (n m : Int) (k : Nat) :
    compare (n * 2 ^ k) m = compare (n : ℚ) (m / 2 ^ k) := by
  have hk : (0 : ℚ) < 2 ^ k := by positivity
  calc compare (n * 2 ^ k) m
      = cmp ((n * 2 ^ k : Int) : ℚ) (m : ℚ) := by
        rw [← cmp_eq_compare, Int.cast_strictMono.cmp_map_eq]
    _ = cmp ((n : ℚ) * 2 ^ k) (m / 2 ^ k * 2 ^ k) := by
        rw [div_mul_cancel₀ _ hk.ne']
        push_cast
        rfl
    _ = compare (n : ℚ) (m / 2 ^ k) := by
        rw [cmp_mul_pos_right hk, cmp_eq_compare]

theorem compareInt_exact {n : Int} {f : Double} {q : ℚ} (h : f.exact = some q) :
    compareInt n f = some (compare (n : ℚ) q) := by
  unfold exact at h
  unfold compareInt
  split at h
  case h_1 | h_2 => cases h
  case h_3 hf =>
    cases h
    rw [hf]
    simpa using congrArg some (compare_div n 0 0)
  case h_4 sign mantissa exponent _ hf =>
    rw [hf]
    cases sign with
    | positive => cases h; exact congrArg some (compare_div ..)
    | negative => cases h; exact congrArg some (compare_div ..)

end Double

namespace Number

def exact : Number → Option ℚ
  | .int n => some n
  | .float f => f.exact

variable {a : Number} {n : Int} {q : ℚ}

theorem compare_exact (h : a.exact = some q) :
    compare (.int n) a = some (Ord.compare (n : ℚ) q) := by
  cases a with
  | int m =>
    cases h
    refine congrArg some ?_
    simpa using Double.compare_div n m 0
  | float f => exact Double.compareInt_exact h

theorem le_exact (h : a.exact = some q) : le (.int n) a = true ↔ n ≤ q := by
  rw [le, compare_exact h, Option.any_some]
  exact Ordering.isLE_iff_ne_gt.trans compare_le_iff_le

theorem compare_swap (a : Number) (n : Int) :
    compare a (.int n) = (compare (.int n) a).map Ordering.swap := by
  cases a with
  | int m => exact congrArg some (Int.compare_swap n m).symm
  | float f => rfl

theorem positive_exact (h : a.exact = some q) : a.positive = true ↔ 0 < q := by
  rw [positive, compare_swap, compare_exact h, Option.map_some, beq_iff_eq, Option.some.injEq,
    Ordering.swap_eq_gt, compare_lt_iff_lt, Int.cast_zero]

/-- The sum of the numbers; arithmetic on `float`s may round it. -/
def total : List Number → Option ℚ
  | [] => some 0
  | a :: as => do return (← a.exact) + (← total as)

theorem total_append_singleton {as : List Number} {p q : ℚ} (has : total as = some p)
    (ha : a.exact = some q) : total (as ++ [a]) = some (p + q) := by
  induction as generalizing p with
  | nil => cases has; simp [total, ha]
  | cons b as ih =>
    obtain ⟨x, hb, y, hy, hp⟩ : ∃ x, b.exact = some x ∧ ∃ y, total as = some y ∧ x + y = p := by
      simpa [total, Option.bind_eq_some_iff] using has
    simp [total, hb, ih hy, ← hp, add_assoc]

end Number

end Raidex
