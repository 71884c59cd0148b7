import Raidex.Lib.Binary64

/-!
# Raidex.Lib.FloatOrder

The order of binary64 floats.

* `rank`: floats other than `NaN` are compared by it; `lt_iff_rank`.
* `IsNumber`: the floats other than `NaN`. `IsNumber.not_lt_trans`: they are ordered up to ties.
* `isNumber_ofInt`, `isNumber_div`: rounding gives no `NaN`, and neither does the division of finite
  floats by another than zero.
-/

namespace Binary64

open Float.Model (Format UnpackedFloat)
open Float.Model.UnpackedFloat

/-- The class of a float, and the exponent and mantissa of a finite one. -/
def rank : UnpackedFloat → ℤ ×ₗ ℤ ×ₗ ℤ
  | .notANumber => toLex (0, toLex (0, 0))
  | .infinity .negative => toLex (-2, toLex (0, 0))
  | .finite .negative m e _ => toLex (-1, toLex (-e, -m))
  | .zero _ => toLex (0, toLex (0, 0))
  | .finite .positive m e _ => toLex (1, toLex (e, m))
  | .infinity .positive => toLex (2, toLex (0, 0))

theorem then_eq_lt {e e' : ℤ} {m m' : ℕ} :
    (compare e e').then (compare m m') = .lt ↔ e < e' ∨ e = e' ∧ m < m' := by
  rw [Ordering.then_eq_lt, compare_lt_iff_lt, compare_lt_iff_lt, compare_eq_iff_eq]

theorem then_eq_gt {e e' : ℤ} {m m' : ℕ} :
    (compare e e').then (compare m m') = .gt ↔ e' < e ∨ e = e' ∧ m' < m := by
  rw [Ordering.then_eq_gt, compare_gt_iff_gt, compare_gt_iff_gt, compare_eq_iff_eq]

theorem compare_sign_eq_lt {s s' : Sign} :
    compare s s' = .lt ↔ s = .negative ∧ s' = .positive := by
  cases s <;> cases s' <;> simp [compare]

/-- Signs decide first, then exponents, then mantissas. -/
theorem unpacked_lt_iff {u v : UnpackedFloat} (hu : u ≠ .notANumber) (hv : v ≠ .notANumber) :
    u.lt v = true ↔ rank u < rank v := by
  cases u with
  | notANumber => exact absurd rfl hu
  | infinity s | zero s | finite s m e hm =>
    cases v with
    | notANumber => exact absurd rfl hv
    | infinity s' | zero s' | finite s' m' e' hm' =>
      cases s <;> cases s' <;>
        simp [UnpackedFloat.lt, UnpackedFloat.compare, rank, Prod.Lex.toLex_lt_toLex, then_eq_lt,
          then_eq_gt, compare_sign_eq_lt]

/-! ## Numbers -/

def IsNumber (f : Float.Model) : Prop := f.unpack ≠ .notANumber

section

variable {f g h : Float.Model}

theorem lt_iff_rank (hf : IsNumber f) (hg : IsNumber g) : f < g ↔ rank f.unpack < rank g.unpack :=
  unpacked_lt_iff hf hg

theorem IsNumber.lt_asymm (hf : IsNumber f) (hg : IsNumber g) (h : f < g) : ¬ g < f := by
  rw [lt_iff_rank hf hg] at h
  rw [lt_iff_rank hg hf]
  exact h.asymm

theorem IsNumber.lt_irrefl (hf : IsNumber f) : ¬ f < f := fun h => hf.lt_asymm hf h h

/-- Where one float is not below another, and this one not below a third, neither is the first. -/
theorem IsNumber.not_lt_trans (hf : IsNumber f) (hg : IsNumber g) (hh : IsNumber h) (hgf : ¬ g < f)
    (hhg : ¬ h < g) : ¬ h < f := by
  rw [lt_iff_rank hg hf, not_lt] at hgf
  rw [lt_iff_rank hh hg, not_lt] at hhg
  rw [lt_iff_rank hh hf, not_lt]
  exact hgf.trans hhg

end

/-! ## Finite floats and infinities -/

section

variable {f g : Float.Model}

theorem value_of_isNumber (hf : IsNumber f) (hinf : f.isInf = false) :
    ∃ x, value f.unpack = some x := by
  unfold Float.Model.isInf at hinf
  cases hfu : f.unpack with
  | notANumber => exact absurd hfu hf
  | infinity s => rw [hfu] at hinf; cases hinf
  | zero s => exact ⟨_, rfl⟩
  | finite s m e hm => exact ⟨_, rfl⟩

/-- A float that stands for zero is equal to zero. -/
theorem beq_zero_of_value (hf : value f.unpack = some 0) : (f == Float.Model.ofInt 0) = true := by
  show f.unpack.beq (Float.Model.ofInt 0).unpack = true
  have hzero : (Float.Model.ofInt 0).unpack = .zero .positive := rfl
  rw [hzero]
  cases hfu : f.unpack with
  | notANumber => rw [hfu] at hf; cases hf
  | infinity s => rw [hfu] at hf; cases hf
  | zero s => rfl
  | finite s m e hm =>
    rw [hfu, value, apply_mul] at hf
    have hpos : (0 : ℚ) < m * 2 ^ e := mul_pos (Nat.cast_pos.mpr hm) (two_zpow_pos e)
    cases s with
    | positive => exact absurd (Option.some.inj hf) hpos.ne'
    | negative => exact absurd (Option.some.inj hf) (neg_ne_zero.mpr hpos.ne')

/-- What is taken from infinity leaves infinity. -/
theorem infinity_sub (hf : f.unpack = .infinity .positive) (hg : IsNumber g)
    (hinf : g.isInf = false) : (f - g).unpack = .infinity .positive := by
  show (Float.Model.pack (UnpackedFloat.sub Format.binary64 f.unpack g.unpack)).unpack = _
  rw [hf]
  unfold Float.Model.isInf at hinf
  cases hgu : g.unpack with
  | notANumber => exact absurd hgu hg
  | infinity s => rw [hgu] at hinf; cases hinf
  | zero s => exact unpack_infinity .positive
  | finite s m e hm => exact unpack_infinity .positive

end

/-! ## Results of rounding -/

theorem unpack_packComponents_ne (s : Sign) (b : BitVec 11) (c : BitVec 52) (hb : b ≠ -1#11) :
    unpack Format.binary64 (packComponents Format.binary64 s b c) ≠ .notANumber := by
  unfold unpack
  simp only [unpackExponent_packComponents, unpackMantissa_packComponents, if_neg hb]
  split
  · split <;> exact nofun
  · exact nofun

/-- Packing makes no `NaN`. -/
theorem isNumber_pack {u : UnpackedFloat} (hu : u ≠ .notANumber) :
    IsNumber (Float.Model.pack u) := by
  have hinfinity (s : Sign) :
      unpack Format.binary64 (packedInfinity Format.binary64 s) ≠ .notANumber := by
    cases s <;> exact nofun
  show unpack Format.binary64 (pack Format.binary64 u) ≠ .notANumber
  cases u with
  | notANumber => exact absurd rfl hu
  | infinity s => exact hinfinity s
  | zero s => exact unpack_packComponents_ne s _ _ (by decide)
  | finite s m e hm =>
    unfold pack
    simp only
    split
    · exact hinfinity s
    next hfit =>
      split
      · refine unpack_packComponents_ne s _ _ fun h => hfit ?_
        generalize (e + (Format.binary64.exponentBias : ℤ) +
          Format.binary64.mantissaBitsWithoutImplicit).toNat = k at h ⊢
        have hbits : k % 2048 = 2047 := congrArg BitVec.toNat h
        show 2048 ≤ k + 1
        omega
      · exact unpack_packComponents_ne s _ _ (by decide)

theorem roundWithAccuracy_ne (s : Sign) (m : ℕ) (e : ℤ) (acc : Accuracy) :
    roundWithAccuracy Format.binary64 s m e acc ≠ .notANumber := by
  unfold roundWithAccuracy
  simp only
  split <;> exact nofun

theorem isNumber_ofInt (n : ℤ) : IsNumber (Float.Model.ofInt n) := by
  refine isNumber_pack ?_
  unfold UnpackedFloat.ofInt UnpackedFloat.normalize
  split
  · exact roundWithAccuracy_ne _ _ _ _
  · exact nofun
  · exact roundWithAccuracy_ne _ _ _ _

variable {f g : Float.Model} {x y : ℚ}

/-- A finite float that is divided by another than zero. -/
theorem isNumber_div (hf : value f.unpack = some x) (hg : value g.unpack = some y) (hy : y ≠ 0) :
    IsNumber (f / g) := by
  refine isNumber_pack ?_
  cases hfu : f.unpack with
  | notANumber => rw [hfu] at hf; cases hf
  | infinity s => rw [hfu] at hf; cases hf
  | zero s =>
    cases hgu : g.unpack with
    | notANumber => rw [hgu] at hg; cases hg
    | infinity s' => rw [hgu] at hg; cases hg
    | zero s' => rw [hgu] at hg; exact absurd (Option.some.inj hg).symm hy
    | finite s' m' e' hm' => exact nofun
  | finite s m e hm =>
    cases hgu : g.unpack with
    | notANumber => rw [hgu] at hg; cases hg
    | infinity s' => rw [hgu] at hg; cases hg
    | zero s' => rw [hgu] at hg; exact absurd (Option.some.inj hg).symm hy
    | finite s' m' e' hm' => exact roundWithAccuracy_ne _ _ _ _

end Binary64
