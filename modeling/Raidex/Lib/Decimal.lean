import Mathlib.Data.Int.Log
import Mathlib.Data.Rat.Floor
import Mathlib.Tactic.Linarith
import Mathlib.Tactic.Positivity
import Mathlib.Tactic.Ring

/-!
# Raidex.Lib.Decimal

Decimal arithmetic that rounds towards `-∞` to a number of significant digits. A decimal is the
rational number it stands for; bounds on the exponent are left out.

* `roundFloor`: the rounding; `fits_roundFloor`, `roundFloor_le`, `le_roundFloor` say that it is
  the greatest decimal below. `lt_roundFloor_add` bounds its error.
* `Context`: a number of digits, or none for exact arithmetic.
* `Context.quantize`: rounding to a number of fractional digits, where the result fits.
* `lt_roundFloor_of_ulp`: adding an ulp or more moves a decimal up. `lt_roundFloor_again`: below
  zero, what moves it once does so again.
-/

namespace Decimal

/-- A number with at most `prec` significant digits. -/
def Fits (prec : ℕ) (x : ℚ) : Prop := ∃ c k : ℤ, |c| ≤ 10 ^ prec ∧ x = c * 10 ^ k

/-- The exponent of the last of `prec` significant digits. -/
def lastExponent (prec : ℕ) (x : ℚ) : ℤ := Int.log 10 |x| - (prec - 1)

def ulp (prec : ℕ) (x : ℚ) : ℚ := 10 ^ lastExponent prec x

def roundFloor (prec : ℕ) (x : ℚ) : ℚ := ⌊x / ulp prec x⌋ * ulp prec x

variable {prec : ℕ} {x y : ℚ}

theorem ulp_pos : 0 < ulp prec x := zpow_pos (by norm_num) _

theorem roundFloor_le : roundFloor prec x ≤ x :=
  calc roundFloor prec x ≤ x / ulp prec x * ulp prec x :=
        mul_le_mul_of_nonneg_right (Int.floor_le _) ulp_pos.le
    _ = x := div_mul_cancel₀ x ulp_pos.ne'

theorem lt_roundFloor_add : x < roundFloor prec x + ulp prec x :=
  calc x = x / ulp prec x * ulp prec x := (div_mul_cancel₀ x ulp_pos.ne').symm
    _ < (⌊x / ulp prec x⌋ + 1) * ulp prec x :=
        mul_lt_mul_of_pos_right (Int.lt_floor_add_one _) ulp_pos
    _ = roundFloor prec x + ulp prec x := by rw [roundFloor, add_mul, one_mul]

/-- A number is less than `10 ^ prec` ulps. -/
theorem abs_lt_ulp (prec : ℕ) (x : ℚ) : |x| < 10 ^ prec * ulp prec x := by
  have h : |x| < (10 : ℕ) ^ (Int.log 10 |x| + 1) := Int.lt_zpow_succ_log_self (by decide) _
  have hexp : Int.log 10 |x| + 1 = prec + lastExponent prec x := by unfold lastExponent; ring
  rw [hexp, zpow_add₀ (by norm_num), zpow_natCast] at h
  exact_mod_cast h

/-- A number other than zero is at least `10 ^ (prec - 1)` ulps. -/
theorem ulp_le_abs (hprec : 0 < prec) (hx : x ≠ 0) : 10 ^ (prec - 1) * ulp prec x ≤ |x| := by
  have h : ((10 : ℕ) : ℚ) ^ Int.log 10 |x| ≤ |x| :=
    Int.zpow_log_le_self (by decide) (abs_pos.mpr hx)
  have hexp : Int.log 10 |x| = ((prec - 1 : ℕ) : ℤ) + lastExponent prec x := by
    unfold lastExponent
    omega
  rw [hexp, zpow_add₀ (by norm_num), zpow_natCast] at h
  exact_mod_cast h

theorem fits_roundFloor : Fits prec (roundFloor prec x) := by
  refine ⟨⌊x / ulp prec x⌋, lastExponent prec x, ?_, rfl⟩
  have h : |x / ulp prec x| < 10 ^ prec := by
    rw [abs_div, abs_of_pos ulp_pos, div_lt_iff₀ ulp_pos]
    exact abs_lt_ulp prec x
  obtain ⟨hlow, hhigh⟩ := abs_lt.mp h
  rw [abs_le]
  constructor
  · refine Int.le_floor.mpr ?_
    push_cast
    exact hlow.le
  · have hlt : ⌊x / ulp prec x⌋ < 10 ^ prec := Int.floor_lt.mpr (by push_cast; exact hhigh)
    exact hlt.le

/-- A multiple of the ulp below a number is below the rounded one. -/
theorem le_roundFloor_of_mul {n : ℤ} (h : n * ulp prec x ≤ x) :
    n * ulp prec x ≤ roundFloor prec x := by
  have hn : n ≤ ⌊x / ulp prec x⌋ := Int.le_floor.mpr ((le_div_iff₀ ulp_pos).mpr h)
  exact mul_le_mul_of_nonneg_right (Int.cast_le.mpr hn) ulp_pos.le

/-- A decimal with a smaller last exponent is at most the least number with the leading digit. -/
theorem abs_le_of_lt {c k : ℤ} (hprec : 0 < prec) (hc : |c| ≤ 10 ^ prec)
    (hk : k < lastExponent prec x) : |(c : ℚ) * 10 ^ k| ≤ 10 ^ (prec - 1) * ulp prec x := by
  have hc' : |(c : ℚ)| ≤ 10 ^ prec := by exact_mod_cast hc
  have hpow : (0 : ℚ) < 10 ^ k := zpow_pos (by norm_num) k
  calc |(c : ℚ) * 10 ^ k| = |(c : ℚ)| * 10 ^ k := by rw [abs_mul, abs_of_pos hpow]
    _ ≤ 10 ^ prec * 10 ^ k := mul_le_mul_of_nonneg_right hc' hpow.le
    _ = 10 ^ (prec - 1) * 10 ^ (k + 1) := by
        rw [zpow_add_one₀ (by norm_num), ← mul_pow_sub_one hprec.ne' (10 : ℚ)]
        ring
    _ ≤ 10 ^ (prec - 1) * ulp prec x := by
        refine mul_le_mul_of_nonneg_left ?_ (by positivity)
        exact zpow_le_zpow_right₀ (by norm_num) hk

/-- Rounding gives the greatest decimal below. -/
theorem le_roundFloor (hprec : 0 < prec) (hy : Fits prec y) (h : y ≤ x) :
    y ≤ roundFloor prec x := by
  obtain ⟨c, k, hc, rfl⟩ := hy
  rcases eq_or_ne x 0 with rfl | hx
  · rwa [roundFloor, zero_div, Int.floor_zero, Int.cast_zero, zero_mul]
  rcases lt_or_ge k (lastExponent prec x) with hk | hk
  · have hle := abs_le_of_lt hprec hc hk
    have hulp := ulp_le_abs hprec hx
    have hcast : (((10 ^ (prec - 1) : ℤ)) : ℚ) = 10 ^ (prec - 1) := by push_cast; rfl
    rcases hx.lt_or_gt with hneg | hpos
    · -- The decimal is the number itself, the greatest one with its leading digit.
      rw [abs_of_neg hneg] at hulp
      have hcneg : (c : ℚ) * 10 ^ k ≤ 0 := h.trans hneg.le
      rw [abs_of_nonpos hcneg] at hle
      have heq : (-(10 ^ (prec - 1)) : ℤ) * ulp prec x = x := by
        push_cast
        linarith
      have hmul : (-(10 ^ (prec - 1)) : ℤ) * ulp prec x ≤ roundFloor prec x :=
        le_roundFloor_of_mul heq.le
      rw [heq] at hmul
      exact h.trans hmul
    · rw [abs_of_pos hpos] at hulp
      have hmul : ((10 ^ (prec - 1) : ℤ) : ℚ) * ulp prec x ≤ roundFloor prec x :=
        le_roundFloor_of_mul (by rw [hcast]; exact hulp)
      rw [hcast] at hmul
      exact ((le_abs_self _).trans hle).trans hmul
  · have hmul : (c : ℚ) * 10 ^ k = (c * 10 ^ (k - lastExponent prec x).toNat : ℤ) * ulp prec x := by
      have hexp : k = (k - lastExponent prec x).toNat + lastExponent prec x := by omega
      rw [ulp]
      conv_lhs => rw [hexp, zpow_add₀ (by norm_num), zpow_natCast]
      push_cast
      ring
    rw [hmul] at h ⊢
    exact le_roundFloor_of_mul h

theorem roundFloor_of_fits (hprec : 0 < prec) (hx : Fits prec x) : roundFloor prec x = x :=
  le_antisymm roundFloor_le (le_roundFloor hprec hx le_rfl)

theorem fits_intCast {n : ℤ} (h : |n| ≤ 10 ^ prec) : Fits prec n := ⟨n, 0, h, by simp⟩

/-- The error is less than a unit in the last digit of the number. -/
theorem sub_abs_le_roundFloor (hprec : 0 < prec) : x - |x| ≤ roundFloor prec x := by
  rcases eq_or_ne x 0 with rfl | hx
  · exact le_roundFloor hprec ⟨0, 0, by simp, by simp⟩ (by simp)
  have hulp : ulp prec x ≤ |x| := by
    refine le_trans ?_ (ulp_le_abs hprec hx)
    exact le_mul_of_one_le_left ulp_pos.le (one_le_pow₀ (by norm_num))
  have herror : x < roundFloor prec x + ulp prec x := lt_roundFloor_add
  linarith

/-- A whole number is rounded to one. -/
theorem roundFloor_intCast (prec : ℕ) (n : ℤ) : ∃ m : ℤ, roundFloor prec (n : ℚ) = m := by
  rcases le_or_gt 0 (lastExponent prec (n : ℚ)) with h | h
  · refine ⟨⌊(n : ℚ) / ulp prec n⌋ * 10 ^ (lastExponent prec (n : ℚ)).toNat, ?_⟩
    have hulp : ulp prec (n : ℚ) = 10 ^ (lastExponent prec (n : ℚ)).toNat := by
      rw [ulp, ← zpow_natCast, Int.toNat_of_nonneg h]
    rw [roundFloor]
    push_cast
    rw [← hulp]
  · refine ⟨n, ?_⟩
    have hulp : (n : ℚ) / ulp prec n = (n * 10 ^ (-lastExponent prec (n : ℚ)).toNat : ℤ) := by
      rw [div_eq_mul_inv, ulp, ← zpow_neg]
      push_cast
      rw [← zpow_natCast, Int.toNat_of_nonneg (by omega)]
    rw [roundFloor, hulp, Int.floor_intCast, ← hulp, div_mul_cancel₀ _ ulp_pos.ne']

/-- Adding an ulp or more moves a decimal up. -/
theorem lt_roundFloor_of_ulp (hprec : 0 < prec) (hx : Fits prec x) (h : x + ulp prec x ≤ y) :
    x < roundFloor prec y := by
  have hmul : x = ⌊x / ulp prec x⌋ * ulp prec x := (roundFloor_of_fits hprec hx).symm
  have hfits : Fits prec (x + ulp prec x) := by
    refine ⟨⌊x / ulp prec x⌋ + 1, lastExponent prec x, ?_, ?_⟩
    · have hlt : |x / ulp prec x| < 10 ^ prec := by
        rw [abs_div, abs_of_pos ulp_pos, div_lt_iff₀ ulp_pos]
        exact abs_lt_ulp prec x
      obtain ⟨hlow, hhigh⟩ := abs_lt.mp hlt
      have hfloor : -(10 ^ prec) ≤ ⌊x / ulp prec x⌋ :=
        Int.le_floor.mpr (by push_cast; exact hlow.le)
      have hfloor' : ⌊x / ulp prec x⌋ < 10 ^ prec := Int.floor_lt.mpr (by push_cast; exact hhigh)
      rw [abs_le]
      constructor
      · linarith
      · exact hfloor'
    · push_cast
      rw [add_mul, one_mul]
      exact congrArg (· + ulp prec x) hmul
  exact (lt_add_of_pos_right x ulp_pos).trans_le (le_roundFloor hprec hfits h)

/-- Of two decimals the one with the smaller absolute value has a last digit that is not above that
of the other. -/
theorem Fits.refine (hx : Fits prec x) (hy : Fits prec y) (h : |y| ≤ |x|) :
    ∃ c d j : ℤ, x = c * 10 ^ j ∧ y = d * 10 ^ j ∧ |d| ≤ 10 ^ prec := by
  obtain ⟨c, k, hc, rfl⟩ := hx
  obtain ⟨d, j, hd, rfl⟩ := hy
  have hshift {a b : ℤ} (hab : a ≤ b) (m : ℤ) :
      (m : ℚ) * 10 ^ b = (m * 10 ^ (b - a).toNat : ℤ) * 10 ^ a := by
    have hexp : b = (b - a).toNat + a := by omega
    conv_lhs => rw [hexp, zpow_add₀ (by norm_num), zpow_natCast]
    push_cast
    ring
  rcases le_total j k with hjk | hkj
  · exact ⟨_, d, j, hshift hjk c, rfl, hd⟩
  · refine ⟨c, _, k, rfl, hshift hkj d, ?_⟩
    have hpow : (0 : ℚ) < 10 ^ k := zpow_pos (by norm_num) k
    rw [hshift hkj d, abs_mul, abs_mul, abs_of_pos hpow] at h
    have hle := le_of_mul_le_mul_right h hpow
    exact (show |d * 10 ^ (j - k).toNat| ≤ |c| by exact_mod_cast hle).trans hc

/-- Below zero a step that moves a decimal up still does so after it has. -/
theorem lt_roundFloor_again (hprec : 0 < prec) (hx : Fits prec x) (h : x < roundFloor prec (x + y))
    (hneg : roundFloor prec (x + y) < 0) :
    roundFloor prec (x + y) < roundFloor prec (roundFloor prec (x + y) + y) := by
  have hle : roundFloor prec (x + y) ≤ x + y := roundFloor_le
  have hfits : Fits prec (roundFloor prec (x + y)) := fits_roundFloor
  generalize roundFloor prec (x + y) = z at *
  rcases le_or_gt (2 * z - x) 0 with hzero | hzero
  · -- The step was at least `z - x`, and such a step ends at a decimal again.
    have habs : |z| ≤ |x| := by
      rw [abs_of_neg hneg, abs_of_neg (h.trans hneg)]
      linarith
    obtain ⟨c, d, j, rfl, rfl, hd⟩ := hx.refine hfits habs
    have hpow : (0 : ℚ) < 10 ^ j := zpow_pos (by norm_num) j
    have hstep : Fits prec (2 * ((d : ℚ) * 10 ^ j) - c * 10 ^ j) := by
      refine ⟨2 * d - c, j, ?_, by push_cast; ring⟩
      have hcd : c < d := by
        have hlt := lt_of_mul_lt_mul_right h hpow.le
        exact_mod_cast hlt
      have hnonpos : 2 * d - c ≤ 0 := by
        have hmul : ((2 * d - c : ℤ) : ℚ) * 10 ^ j ≤ 0 := by
          push_cast
          linarith
        have hcast := nonpos_of_mul_nonpos_left hmul hpow
        exact_mod_cast hcast
      rw [abs_of_nonpos hnonpos]
      rw [abs_of_nonpos (by omega)] at hd
      omega
    refine lt_of_lt_of_le ?_ (le_roundFloor hprec hstep (by linarith))
    linarith
  · have hfitszero : Fits prec 0 := ⟨0, 0, by simp, by simp⟩
    exact hneg.trans_le (le_roundFloor hprec hfitszero (by linarith))

/-! ## Contexts -/

/-- The number of significant digits; `none` stands for exact arithmetic. -/
structure Context where
  prec : Option ℕ

namespace Context

/-- Arithmetic without rounding. -/
def exact : Context := ⟨none⟩

def round (c : Context) (x : ℚ) : ℚ :=
  match c.prec with
  | none => x
  | some prec => roundFloor prec x

/-- A coefficient has at most the digits of the context. -/
def holds (c : Context) (n : ℤ) : Bool := c.prec.all fun prec => |n| < 10 ^ prec

/-- Rounding to `places` fractional digits; `none` where the result does not fit. -/
def quantize (c : Context) (places : ℕ) (x : ℚ) : Option ℚ :=
  if c.holds ⌊x * 10 ^ places⌋ then some (⌊x * 10 ^ places⌋ / 10 ^ places) else none

@[simp] theorem round_exact (x : ℚ) : exact.round x = x := rfl

end Context

end Decimal
