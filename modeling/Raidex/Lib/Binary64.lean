import Mathlib

/-!
# Raidex.Lib.Binary64

What the rounding of the binary64 model does to the rational numbers that it rounds.

* `value`: the number that an unpacked float stands for.
* `Representable`: a number with a mantissa of 53 bits. A rounded number is on the same side of
  each of them as the number itself: `le_round`, `round_le`.
* `largest`: the largest finite float; a number up to it is not rounded to infinity.
* `Approx`: a mantissa with its accuracy, as the operations of the model compute it, and the number
  it stands for. `value_roundWithAccuracy`: what rounding it gives.
* `Canonical`: the mantissas and exponents of finite floats, which packing keeps.
* `value_add`, `value_sub`: sums and differences that are representable are not rounded.
  `value_sub_between`: what the rounding of any other difference keeps.
* `OnGrid`: the multiples of a power of two that are representable; `exists_grid` is the finest
  grid that a number is on.
* `value_sub_none`, `value_mul_none`: what is not finite stays so.
* `value_div`: a quotient of natural numbers is rounded once; `value_mul`: so is a product.
* `near_of_sides`: how far a number is rounded at most.
-/

namespace Binary64

open Float.Model (Format totalExponent UnpackedFloat)
open Float.Model.UnpackedFloat

def value : UnpackedFloat → Option ℚ
  | .notANumber | .infinity _ => none
  | .zero _ => some 0
  | .finite s m e _ => some (s.apply (m : ℤ) * 2 ^ e)

/-- A non-negative number with at most 53 significant bits. -/
def Representable (x : ℚ) : Prop := ∃ (c : ℕ) (j : ℤ), c ≤ 2 ^ 53 ∧ -1074 ≤ j ∧ x = c * 2 ^ j

def largest : ℚ := (2 ^ 53 - 1) * 2 ^ 971

theorem two_zpow_pos (t : ℤ) : (0 : ℚ) < 2 ^ t := zpow_pos (by norm_num) t

theorem two_zpow_add (n : ℕ) (t : ℤ) : (2 : ℚ) ^ (n + t) = 2 ^ n * 2 ^ t := by
  rw [zpow_add₀ (by norm_num), zpow_natCast]

/-- A representable number is on the grid of a last bit, or below the numbers that have it. -/
theorem Representable.grid {y : ℚ} (hy : Representable y) {t : ℤ} :
    (∃ n : ℕ, y = n * 2 ^ t) ∨ -1074 < t ∧ y ≤ 2 ^ 52 * 2 ^ t := by
  obtain ⟨c, j, hc, hj, rfl⟩ := hy
  rcases le_or_gt t j with h | h
  · refine .inl ⟨c * 2 ^ (j - t).toNat, ?_⟩
    have hexp : j = (j - t).toNat + t := by omega
    conv_lhs => rw [hexp, two_zpow_add]
    push_cast
    ring
  · refine .inr ⟨by omega, ?_⟩
    calc (c : ℚ) * 2 ^ j ≤ 2 ^ 53 * 2 ^ j :=
          mul_le_mul_of_nonneg_right (by exact_mod_cast hc) (two_zpow_pos j).le
      _ = 2 ^ 52 * 2 ^ (j + 1) := by rw [zpow_add_one₀ (by norm_num)]; ring
      _ ≤ 2 ^ 52 * 2 ^ t :=
          mul_le_mul_of_nonneg_left (zpow_le_zpow_right₀ (by norm_num) h) (by norm_num)

/-! ## Grids -/

/-- A multiple of the power of two that has at most 53 bits. -/
def OnGrid (j : ℤ) (x : ℚ) : Prop := ∃ c : ℕ, c ≤ 2 ^ 53 ∧ x = c * 2 ^ j

namespace OnGrid

variable {i j : ℤ} {x y : ℚ}

theorem nonneg (h : OnGrid j x) : 0 ≤ x := by
  obtain ⟨c, -, rfl⟩ := h
  exact mul_nonneg (Nat.cast_nonneg c) (two_zpow_pos j).le

theorem representable (h : OnGrid j x) (hj : -1074 ≤ j) : Representable |x| := by
  rw [abs_of_nonneg h.nonneg]
  obtain ⟨c, hc, rfl⟩ := h
  exact ⟨c, j, hc, hj, rfl⟩

theorem le (h : OnGrid j x) : x ≤ 2 ^ 53 * 2 ^ j := by
  obtain ⟨c, hc, rfl⟩ := h
  exact mul_le_mul_of_nonneg_right (by exact_mod_cast hc) (two_zpow_pos j).le

theorem of_le {c : ℕ} (hle : (c : ℚ) * 2 ^ j ≤ 2 ^ 53 * 2 ^ j) : OnGrid j (c * 2 ^ j) := by
  have hc := le_of_mul_le_mul_right hle (two_zpow_pos j)
  exact ⟨c, by exact_mod_cast hc, rfl⟩

/-- A multiple of a larger power of two. -/
theorem of_coarser {c : ℕ} (hji : j ≤ i) (hle : (c : ℚ) * 2 ^ i ≤ 2 ^ 53 * 2 ^ j) :
    OnGrid j (c * 2 ^ i) := by
  have hexp : (c : ℚ) * 2 ^ i = (c * 2 ^ (i - j).toNat : ℕ) * 2 ^ j := by
    have hi : i = (i - j).toNat + j := by omega
    conv_lhs => rw [hi, two_zpow_add]
    push_cast
    ring
  rw [hexp] at hle ⊢
  exact of_le hle

theorem add (hx : OnGrid j x) (hy : OnGrid j y) (hle : x + y ≤ 2 ^ 53 * 2 ^ j) :
    OnGrid j (x + y) := by
  obtain ⟨c, -, rfl⟩ := hx
  obtain ⟨d, -, rfl⟩ := hy
  have hsum : (c : ℚ) * 2 ^ j + d * 2 ^ j = (c + d : ℕ) * 2 ^ j := by push_cast; ring
  rw [hsum] at hle ⊢
  exact of_le hle

theorem sub (hx : OnGrid j x) (hy : OnGrid j y) (hle : y ≤ x) : OnGrid j (x - y) := by
  obtain ⟨c, hc, rfl⟩ := hx
  obtain ⟨d, -, rfl⟩ := hy
  have hdc : d ≤ c := Nat.cast_le.mp (le_of_mul_le_mul_right hle (two_zpow_pos j))
  exact ⟨c - d, (Nat.sub_le ..).trans hc, by rw [Nat.cast_sub hdc, sub_mul]⟩

end OnGrid

/-- The finest grid that a representable number is on. -/
theorem exists_grid {x : ℚ} (h : Representable x) : ∃ j : ℤ, -1074 ≤ j ∧ OnGrid j x ∧
    ∀ i : ℤ, -1074 ≤ i → x ≤ 2 ^ 53 * 2 ^ i → j ≤ i := by
  obtain ⟨c, i, hc, hi, rfl⟩ := h
  have hle : (c : ℚ) * 2 ^ i ≤ 2 ^ 53 * 2 ^ i :=
    mul_le_mul_of_nonneg_right (by exact_mod_cast hc) (two_zpow_pos i).le
  have hexp (i : ℤ) (hi : -1074 ≤ i) : ((i + 1074).toNat : ℤ) - 1074 = i := by omega
  have hexists : ∃ k : ℕ, (c : ℚ) * 2 ^ i ≤ 2 ^ 53 * 2 ^ ((k : ℤ) - 1074) :=
    ⟨(i + 1074).toNat, by rw [hexp i hi]; exact hle⟩
  classical
  have hleast (i' : ℤ) (hi' : -1074 ≤ i') (hle' : (c : ℚ) * 2 ^ i ≤ 2 ^ 53 * 2 ^ i') :
      (Nat.find hexists : ℤ) - 1074 ≤ i' := by
    have hmin : Nat.find hexists ≤ (i' + 1074).toNat :=
      Nat.find_min' hexists (by rw [hexp i' hi']; exact hle')
    omega
  refine ⟨Nat.find hexists - 1074, by omega, ?_, hleast⟩
  exact .of_coarser (hleast i hi hle) (Nat.find_spec hexists)

/-! ## Mantissas that are rounded up or down -/

/-- The number `x` is between two mantissas next to each other, and is rounded to one of them. -/
structure Rounds (x : ℚ) (m r : ℕ) (t : ℤ) : Prop where
  le : m * 2 ^ t ≤ x
  lt : x < (m + 1) * 2 ^ t
  down : m ≤ r
  up : r ≤ m + 1
  exact : x = m * 2 ^ t → r = m
  normal : t = -1074 ∨ 2 ^ 52 ≤ m

section

variable {x y : ℚ} {m r : ℕ} {t : ℤ}

theorem cast_mul_le {a b : ℕ} (h : a ≤ b) (t : ℤ) : (a : ℚ) * 2 ^ t ≤ b * 2 ^ t :=
  mul_le_mul_of_nonneg_right (Nat.cast_le.mpr h) (two_zpow_pos t).le

theorem le_of_cast_mul_le {a b : ℕ} (h : (a : ℚ) * 2 ^ t ≤ b * 2 ^ t) : a ≤ b :=
  Nat.cast_le.mp (le_of_mul_le_mul_right h (two_zpow_pos t))

theorem lt_of_cast_mul_lt {a b : ℕ} (h : (a : ℚ) * 2 ^ t < b * 2 ^ t) : a < b :=
  Nat.cast_lt.mp (lt_of_mul_lt_mul_right h (two_zpow_pos t).le)

theorem Rounds.small_le (h : Rounds x m r t) (ht : -1074 < t) :
    (2 : ℚ) ^ 52 * 2 ^ t ≤ m * 2 ^ t := by
  have hm : 2 ^ 52 ≤ m := h.normal.resolve_left ht.ne'
  exact_mod_cast cast_mul_le hm t

/-- Rounding does not cross a representable number from above. -/
theorem le_round (h : Rounds x m r t) (hy : Representable y) (hyx : y ≤ x) : y ≤ r * 2 ^ t := by
  rcases hy.grid (t := t) with ⟨n, rfl⟩ | ⟨ht, hsmall⟩
  · have hn : n < m + 1 := lt_of_cast_mul_lt (by push_cast; exact hyx.trans_lt h.lt)
    exact cast_mul_le ((Nat.lt_succ_iff.mp hn).trans h.down) t
  · exact (hsmall.trans (h.small_le ht)).trans (cast_mul_le h.down t)

/-- Rounding does not cross a representable number from below. -/
theorem round_le (h : Rounds x m r t) (hy : Representable y) (hxy : x ≤ y) : r * 2 ^ t ≤ y := by
  rcases hy.grid (t := t) with ⟨n, rfl⟩ | ⟨ht, hsmall⟩
  · rcases h.le.eq_or_lt with heq | hlt
    · rw [h.exact heq.symm, heq]
      exact hxy
    · have hn : m < n := lt_of_cast_mul_lt (hlt.trans_le hxy)
      exact cast_mul_le (h.up.trans hn) t
  · have heq : x = m * 2 ^ t :=
      le_antisymm ((hxy.trans hsmall).trans (h.small_le ht)) h.le
    rw [h.exact heq, ← heq]
    exact hxy

end

/-! ## Shifts -/

theorem shiftRight_succ (em : ExtendedMantissa) (k : ℕ) :
    em >>> (k + 1) = (em >>> k).shiftRightOne := rfl

theorem shiftRight_mantissa (em : ExtendedMantissa) (k : ℕ) :
    (em >>> k).mantissa = em.mantissa / 2 ^ k := by
  induction k with
  | zero => exact (Nat.div_one _).symm
  | succ k ih =>
    rw [shiftRight_succ, ExtendedMantissa.shiftRightOne, ih, Nat.div_div_eq_div_mul, pow_succ]

theorem shiftRight_exact (c k : ℕ) :
    (⟨c * 2 ^ k, false, false⟩ : ExtendedMantissa) >>> k = ⟨c, false, false⟩ := by
  induction k generalizing c with
  | zero => rw [pow_zero, mul_one]; rfl
  | succ k ih =>
    rw [shiftRight_succ, pow_succ', ← mul_assoc, ih, ExtendedMantissa.shiftRightOne]
    simp

theorem roundedMantissa_bounds (em : ExtendedMantissa) :
    em.mantissa ≤ em.roundedMantissa ∧ em.roundedMantissa ≤ em.mantissa + 1 := by
  obtain ⟨m, roundBit, stickyBit⟩ := em
  cases roundBit <;> cases stickyBit
  · exact ⟨le_rfl, Nat.le_succ m⟩
  · exact ⟨le_rfl, Nat.le_succ m⟩
  · show m ≤ m + m % 2 ∧ m + m % 2 ≤ m + 1
    omega
  · exact ⟨Nat.le_succ m, le_rfl⟩

/-- A mantissa with its accuracy, and the number that it approximates from below. -/
structure Approx (m : ℕ) (e : ℤ) (acc : Accuracy) (x : ℚ) : Prop where
  le : m * 2 ^ e ≤ x
  lt : x < (m + 1) * 2 ^ e
  exact : x = m * 2 ^ e → acc = .exact

theorem approx_exact (m : ℕ) (e : ℤ) : Approx m e .exact (m * 2 ^ e) where
  le := le_rfl
  lt := mul_lt_mul_of_pos_right (lt_add_one _) (two_zpow_pos e)
  exact _ := rfl

/-- The exponent that a mantissa is shifted to. -/
def target (m : ℕ) (e : ℤ) : ℤ := Format.binary64.targetExponent (totalExponent m e)

theorem target_eq (m : ℕ) (e : ℤ) : target m e = max ((m.log2 : ℤ) + e - 52) (-1074) := by
  unfold target
  simp only [Format.targetExponent, totalExponent, Format.mantissaBits, Format.minExponent]
  omega

variable {m k : ℕ} {e : ℤ} {acc : Accuracy} {x : ℚ} {s : Sign}

/-- The first shift rounds the number to a mantissa of 53 bits. -/
theorem Approx.rounds (h : Approx m e acc x) (hk : e + k = target m e) :
    Rounds x (m / 2 ^ k) (ExtendedMantissa.ofMantissaAndAccuracy m acc >>> k).roundedMantissa
      (target m e) := by
  have hmantissa : (ExtendedMantissa.ofMantissaAndAccuracy m acc >>> k).mantissa = m / 2 ^ k := by
    rw [shiftRight_mantissa]
    rcases acc with _ | _ | _ | _ <;> rfl
  obtain ⟨hdown, hup⟩ :=
    roundedMantissa_bounds (ExtendedMantissa.ofMantissaAndAccuracy m acc >>> k)
  rw [hmantissa] at hdown hup
  have hexp : (2 : ℚ) ^ target m e = 2 ^ k * 2 ^ e := by rw [← hk, add_comm, two_zpow_add]
  have hfloor : (m / 2 ^ k : ℕ) * 2 ^ k ≤ m := Nat.div_mul_le_self m _
  have hceil : m + 1 ≤ (m / 2 ^ k + 1) * 2 ^ k := Nat.lt_mul_of_div_lt (Nat.lt_succ_self _)
    (Nat.two_pow_pos k)
  constructor
  · calc ((m / 2 ^ k : ℕ) : ℚ) * 2 ^ target m e = ((m / 2 ^ k * 2 ^ k : ℕ) : ℚ) * 2 ^ e := by
          rw [hexp]; push_cast; ring
      _ ≤ m * 2 ^ e := cast_mul_le hfloor e
      _ ≤ x := h.le
  · calc x < (m + 1) * 2 ^ e := h.lt
      _ = ((m + 1 : ℕ) : ℚ) * 2 ^ e := by push_cast; rfl
      _ ≤ (((m / 2 ^ k + 1) * 2 ^ k : ℕ) : ℚ) * 2 ^ e := cast_mul_le hceil e
      _ = (((m / 2 ^ k : ℕ) : ℚ) + 1) * 2 ^ target m e := by rw [hexp]; push_cast; ring
  · exact hdown
  · exact hup
  · intro hx
    have hle : m * 2 ^ e ≤ ((m / 2 ^ k * 2 ^ k : ℕ) : ℚ) * 2 ^ e := by
      refine h.le.trans (le_of_eq ?_)
      rw [hx, hexp]
      push_cast
      ring
    have hm : m = m / 2 ^ k * 2 ^ k := le_antisymm (le_of_cast_mul_le hle) hfloor
    have hacc : acc = .exact := by
      refine h.exact ?_
      rw [hx, hexp]
      conv_rhs => rw [hm]
      push_cast
      ring
    rw [hacc, ExtendedMantissa.ofMantissaAndAccuracy]
    conv_lhs => rw [hm]
    rw [shiftRight_exact]
    rfl
  · rw [or_iff_not_imp_left]
    intro ht
    rw [target_eq] at ht hk
    have hlog : m.log2 = 52 + k := by omega
    have hm : m ≠ 0 := by
      rintro rfl
      rw [Nat.log2_zero] at hlog
      omega
    rw [Nat.le_div_iff_mul_le (Nat.two_pow_pos k), ← pow_add, ← hlog]
    exact Nat.log2_self_le hm

/-- The shifted mantissa has 53 bits. -/
theorem div_lt_of_target (hk : e + k = target m e) : m / 2 ^ k < 2 ^ 53 := by
  rw [Nat.div_lt_iff_lt_mul (Nat.two_pow_pos k), ← pow_add]
  refine Nat.lt_log2_self.trans_le (Nat.pow_le_pow_right (by decide) ?_)
  rw [target_eq] at hk
  omega

/-! ## Rounding -/

/-- The mantissas and exponents of finite floats. -/
structure Canonical (m : ℕ) (e : ℤ) : Prop where
  pos : 0 < m
  bits : m < 2 ^ 53
  exponent : -1074 ≤ e
  normal : e = -1074 ∨ 2 ^ 52 ≤ m

/-- A canonical mantissa is shifted no more. -/
theorem target_of_lt {r : ℕ} {t : ℤ} (hr : r < 2 ^ 53) (ht : -1074 ≤ t) :
    (target r t - t).toNat = 0 := by
  have hlog : r.log2 ≤ 52 := by
    rcases eq_or_ne r 0 with rfl | h
    · rw [Nat.log2_zero]; omega
    · exact Nat.lt_succ_iff.mp ((Nat.log2_lt h).mpr hr)
  rw [target_eq]
  omega

/-- A mantissa with its exponent, or zero. -/
def finish (s : Sign) (shifted : ExtendedMantissa × ℤ) : UnpackedFloat :=
  if h : shifted.1.mantissa = 0 then .zero s
  else .finite s shifted.1.mantissa shifted.2 (Nat.pos_of_ne_zero h)

/-- What rounding does with the rounded mantissa. -/
def settle (s : Sign) (r : ℕ) (t : ℤ) : UnpackedFloat :=
  finish s (shiftToTargetExponent Format.binary64 r t .exact)

theorem settle_eq {r m : ℕ} {t e : ℤ} (hm : 0 < m)
    (h : shiftToTargetExponent Format.binary64 r t .exact = (⟨m, false, false⟩, e)) :
    settle s r t = .finite s m e hm := by
  rw [settle, h]
  exact dif_neg hm.ne'

theorem shiftToTargetExponent_exact (r : ℕ) (t : ℤ) :
    shiftToTargetExponent Format.binary64 r t .exact =
      ((⟨r, false, false⟩ : ExtendedMantissa) >>> (target r t - t).toNat,
        t + (target r t - t).toNat) := rfl

/-- A mantissa of 53 bits or the power of two after them keeps its number. -/
theorem settle_cases {r : ℕ} {t : ℤ} (hr : r ≤ 2 ^ 53) (ht : -1074 ≤ t)
    (hnormal : t = -1074 ∨ 2 ^ 52 ≤ r) :
    settle s r t = .zero s ∧ r = 0 ∨
      ∃ (m : ℕ) (e : ℤ) (hm : 0 < m), settle s r t = .finite s m e hm ∧ Canonical m e ∧
        (m : ℚ) * 2 ^ e = r * 2 ^ t := by
  rcases hr.lt_or_eq with hlt | rfl
  · have hshift : shiftToTargetExponent Format.binary64 r t .exact = (⟨r, false, false⟩, t) := by
      rw [shiftToTargetExponent_exact, target_of_lt hlt ht, Nat.cast_zero, add_zero]
      rfl
    rcases Nat.eq_zero_or_pos r with rfl | hpos
    · refine .inl ⟨?_, rfl⟩
      rw [settle, hshift]
      rfl
    · exact .inr ⟨r, t, hpos, settle_eq hpos hshift, ⟨hpos, hlt, ht, hnormal⟩, rfl⟩
  · have hshift : shiftToTargetExponent Format.binary64 (2 ^ 53) t .exact =
        (⟨2 ^ 52, false, false⟩, t + 1) := by
      have htarget : target (2 ^ 53) t = t + 1 := by
        rw [target_eq, Nat.log2_two_pow]
        omega
      rw [shiftToTargetExponent_exact, htarget, add_sub_cancel_left]
      exact Prod.ext (shiftRight_exact (2 ^ 52) 1) rfl
    refine .inr ⟨2 ^ 52, t + 1, by decide, settle_eq (by decide) hshift,
      ⟨by decide, by decide, by omega, .inr le_rfl⟩, ?_⟩
    rw [zpow_add_one₀ (by norm_num)]
    push_cast
    ring

/-- A mantissa with its accuracy is rounded to zero or to a canonical float, whose number is on the
same side of every representable one. -/
theorem roundWithAccuracy_cases (s : Sign) (h : Approx m e acc x) (he : e ≤ target m e) :
    ∃ v : ℚ, (∀ y, Representable y → (y ≤ x → y ≤ v) ∧ (x ≤ y → v ≤ y)) ∧
      (roundWithAccuracy Format.binary64 s m e acc = .zero s ∧ v = 0 ∨
        ∃ (r : ℕ) (t : ℤ) (hr : 0 < r),
          roundWithAccuracy Format.binary64 s m e acc = .finite s r t hr ∧ Canonical r t ∧
            v = r * 2 ^ t) := by
  have hk : e + (target m e - e).toNat = target m e := by omega
  have hrounds := h.rounds hk
  set r := (ExtendedMantissa.ofMantissaAndAccuracy m acc >>>
    (target m e - e).toNat).roundedMantissa with hr
  have hround : roundWithAccuracy Format.binary64 s m e acc = settle s r (target m e) := by
    conv_rhs => rw [← hk, hr]
    rfl
  have hmin : -1074 ≤ target m e := by rw [target_eq]; omega
  refine ⟨r * 2 ^ target m e, fun y hy => ⟨le_round hrounds hy, round_le hrounds hy⟩, ?_⟩
  rw [hround]
  rcases settle_cases (s := s) (hrounds.up.trans (div_lt_of_target hk)) hmin
      (hrounds.normal.imp_right fun hm => hm.trans hrounds.down) with
    ⟨hzero, hr0⟩ | ⟨m', e', hm', hfinite, hcanonical, hvalue⟩
  · refine .inl ⟨hzero, ?_⟩
    rw [hr0, Nat.cast_zero, zero_mul]
  · exact .inr ⟨m', e', hm', hfinite, hcanonical, hvalue.symm⟩

/-! ## Packing -/

theorem finite_congr {m m' : ℕ} {e e' : ℤ} {hm : 0 < m} {hm' : 0 < m'} (h : m = m') (he : e = e') :
    UnpackedFloat.finite s m e hm = .finite s m' e' hm' := by
  subst h he
  rfl

theorem unpackSign_packComponents (b : BitVec 11) (c : BitVec 52) :
    Sign.ofBitVec (unpackSign (packComponents Format.binary64 s b c)) = s := by
  have h : unpackSign (packComponents Format.binary64 s b c) = s.toBitVec := by
    ext i hi
    obtain rfl : i = 0 := by omega
    simp only [unpackSign, packComponents, BitVec.getElem_cast, BitVec.extractLsb,
      BitVec.getElem_extractLsb']
    rw [BitVec.getLsbD_append, BitVec.getLsbD_append]
    rfl
  rw [h]
  cases s <;> rfl

/-- A normal float. -/
theorem unpack_packComponents (b : BitVec 11) (c : BitVec 52) (hb : b ≠ -1#11) (hb' : b ≠ 0#11) :
    unpack Format.binary64 (packComponents Format.binary64 s b c) =
      .finite s (2 ^ 52 + c.toNat) (b.toNat - 1075) (by omega) := by
  unfold unpack
  simp only [unpackExponent_packComponents, unpackMantissa_packComponents,
    unpackSign_packComponents]
  rw [if_neg hb, if_neg hb']
  refine finite_congr ?_ rfl
  rw [BitVec.toNat_append]
  have hc := c.isLt
  rw [← Nat.shiftLeft_add_eq_or_of_lt hc]
  rfl

/-- A subnormal float. -/
theorem unpack_packComponents_zero (c : BitVec 52) (hc : 0 < c.toNat) :
    unpack Format.binary64 (packComponents Format.binary64 s 0#11 c) =
      .finite s c.toNat (-1074) hc := by
  have hne : c ≠ 0#52 := by
    rintro rfl
    exact absurd hc (by decide)
  unfold unpack
  simp only [unpackExponent_packComponents, unpackMantissa_packComponents,
    unpackSign_packComponents]
  rw [if_neg (by decide), if_pos trivial, dif_neg hne]
  exact finite_congr rfl rfl

/-- Packing keeps the mantissa and the exponent of a canonical float. -/
theorem unpack_pack (hc : Canonical m e) (he : e ≤ 971) :
    (Float.Model.pack (.finite s m e hc.pos)).unpack = .finite s m e hc.pos := by
  have hmin := hc.exponent
  have hbits := hc.bits
  show unpack Format.binary64 (pack Format.binary64 _) = _
  have hbias : (e + Format.binary64.exponentBias + Format.binary64.mantissaBitsWithoutImplicit) =
      e + 1075 := by
    show e + 1023 + 52 = e + 1075
    ring
  have hfit : ¬ 2 ^ Format.binary64.exponentBits ≤ (e + 1075).toNat + 1 := by
    show ¬ 2048 ≤ (e + 1075).toNat + 1
    omega
  unfold pack
  simp only [hbias, if_neg hfit]
  by_cases hnormal : 2 ^ 52 ≤ m
  · have hlog : m.log2 + 1 = Format.binary64.mantissaBits := by
      rw [(Nat.log2_eq_iff (by omega)).mpr ⟨hnormal, hbits⟩]
      rfl
    have hb : (BitVec.ofNat 11 (e + 1075).toNat).toNat = (e + 1075).toNat :=
      Nat.mod_eq_of_lt (by omega)
    rw [if_pos hlog, unpack_packComponents]
    · refine finite_congr ?_ ?_
      · show 2 ^ 52 + m % 2 ^ 52 = m
        omega
      · rw [hb]
        omega
    · intro h
      have h := congrArg BitVec.toNat h
      rw [hb] at h
      have : (-1#11).toNat = 2047 := rfl
      omega
    · intro h
      have h := congrArg BitVec.toNat h
      rw [hb] at h
      have : (0#11).toNat = 0 := rfl
      omega
  · have hlog : ¬ m.log2 + 1 = Format.binary64.mantissaBits := by
      have hlt := (Nat.log2_lt hc.pos.ne').mpr (not_le.mp hnormal)
      show ¬ m.log2 + 1 = 53
      omega
    have hm : (BitVec.ofNat 52 m).toNat = m := Nat.mod_eq_of_lt (by omega)
    rw [if_neg hlog, unpack_packComponents_zero _ (by rw [hm]; exact hc.pos)]
    exact finite_congr hm (hc.normal.resolve_right hnormal).symm

/-- The finite floats that there are. -/
theorem canonical_of_unpack {f : Float.Model} {hm : 0 < m}
    (h : f.unpack = .finite s m e hm) : Canonical m e ∧ e ≤ 971 := by
  have hc : (@unpackMantissa Format.binary64 f.toBits.toBitVec).toNat < 2 ^ 52 :=
    (@unpackMantissa Format.binary64 f.toBits.toBitVec).isLt
  have hb : (@unpackExponent Format.binary64 f.toBits.toBitVec).toNat < 2 ^ 11 :=
    (@unpackExponent Format.binary64 f.toBits.toBitVec).isLt
  unfold Float.Model.unpack unpack at h
  simp only at h
  split at h
  · split at h <;> cases h
  next hinf =>
    have hlt : (@unpackExponent Format.binary64 f.toBits.toBitVec).toNat ≠ 2047 :=
      fun heq => hinf (BitVec.eq_of_toNat_eq heq)
    split at h
    next hzero =>
      split at h
      · cases h
      next =>
        cases h
        rw [hzero]
        exact ⟨⟨hm, hc.trans (by decide), le_rfl, .inl rfl⟩, by decide⟩
    next hzero =>
      have hpos : (@unpackExponent Format.binary64 f.toBits.toBitVec).toNat ≠ 0 :=
        fun heq => hzero (BitVec.eq_of_toNat_eq heq)
      cases h
      have hmantissa : (1#1 ++ @unpackMantissa Format.binary64 f.toBits.toBitVec).toNat =
          2 ^ 52 + (@unpackMantissa Format.binary64 f.toBits.toBitVec).toNat := by
        rw [BitVec.toNat_append, ← Nat.shiftLeft_add_eq_or_of_lt hc]
        rfl
      rw [hmantissa]
      have hbias : (Format.binary64.exponentBias : ℤ) + 52 = 1075 := rfl
      refine ⟨⟨by omega, by omega, ?_, .inr (by omega)⟩, ?_⟩
      · show (-1074 : ℤ) ≤ _ - ((Format.binary64.exponentBias : ℤ) + 52)
        omega
      · show _ - ((Format.binary64.exponentBias : ℤ) + 52) ≤ (971 : ℤ)
        omega

/-! ## The number of a rounded float -/

def signed : Sign → ℚ → ℚ
  | .positive, x => x
  | .negative, x => -x

theorem apply_mul (s : Sign) (m : ℕ) (e : ℤ) :
    ((s.apply (m : ℤ) : ℤ) : ℚ) * 2 ^ e = signed s (m * 2 ^ e) := by
  cases s with
  | positive => show ((m : ℤ) : ℚ) * 2 ^ e = m * 2 ^ e; rw [Int.cast_natCast]
  | negative => show ((-m : ℤ) : ℚ) * 2 ^ e = -(m * 2 ^ e); push_cast; ring

theorem representable_zero : Representable 0 := ⟨0, 0, by decide, by decide, by simp⟩

theorem representable_largest : Representable largest :=
  ⟨2 ^ 53 - 1, 971, by decide, by decide, by rw [largest]; norm_num⟩

theorem largest_lt : largest < 2 ^ 1024 := by
  rw [largest, show 1024 = 53 + 971 from rfl, pow_add]
  exact mul_lt_mul_of_pos_right (by norm_num) (by positivity)

theorem two_pow_le_largest : 2 ^ 1023 ≤ largest := by
  rw [largest, show 1023 = 52 + 971 from rfl, pow_add]
  exact mul_le_mul_of_nonneg_right (by norm_num) (by positivity)

theorem value_zero (s : Sign) : value (Float.Model.pack (.zero s)).unpack = some 0 := by
  cases s <;> rfl

/-- A number that is not too large is rounded to a finite one, which is on the same side of every
representable number. -/
theorem value_roundWithAccuracy (s : Sign) (h : Approx m e acc x) (he : e ≤ target m e)
    (hx : x ≤ largest) : ∃ v : ℚ,
      value (Float.Model.pack (roundWithAccuracy Format.binary64 s m e acc)).unpack =
        some (signed s v) ∧
      ∀ y, Representable y → (y ≤ x → y ≤ v) ∧ (x ≤ y → v ≤ y) := by
  obtain ⟨v, hside, ⟨hzero, rfl⟩ | ⟨r, t, hr, hfinite, hc, rfl⟩⟩ := roundWithAccuracy_cases s h he
  · refine ⟨0, ?_, hside⟩
    rw [hzero, value_zero]
    cases s
    · exact congrArg some neg_zero.symm
    · rfl
  · refine ⟨_, ?_, hside⟩
    have hlarge : (r : ℚ) * 2 ^ t ≤ largest := (hside _ representable_largest).2 hx
    have ht : t ≤ 971 := by
      rcases hc.normal with ht | hnormal
      · omega
      · have hpow : (2 : ℚ) ^ (52 + t) < 2 ^ (1024 : ℤ) := by
          have hlt := ((cast_mul_le hnormal t).trans hlarge).trans_lt largest_lt
          rw [zpow_add₀ (by norm_num)]
          exact_mod_cast hlt
        have hexp := (zpow_lt_zpow_iff_right₀ (by norm_num)).mp hpow
        omega
    rw [hfinite, unpack_pack hc ht, value, apply_mul]

theorem log2_shiftLeft (hm : m ≠ 0) (k : ℕ) : (m <<< k).log2 = m.log2 + k := by
  have hpos : m * 2 ^ k ≠ 0 := mul_ne_zero hm (Nat.two_pow_pos k).ne'
  rw [Nat.shiftLeft_eq, Nat.log2_eq_iff hpos, pow_add, Nat.add_right_comm, pow_add]
  exact ⟨Nat.mul_le_mul_right _ (Nat.log2_self_le hm),
    Nat.mul_lt_mul_of_pos_right Nat.lt_log2_self (Nat.two_pow_pos k)⟩

theorem shiftLeft_mul (m k : ℕ) (e : ℤ) :
    ((m <<< k : ℕ) : ℚ) * 2 ^ (e - k) = m * 2 ^ e := by
  have hexp : (2 : ℚ) ^ e = 2 ^ k * 2 ^ (e - k) := by rw [← two_zpow_add, add_sub_cancel]
  rw [Nat.shiftLeft_eq, hexp]
  push_cast
  ring

/-- A mantissa that is shifted to the left before it is rounded. -/
theorem value_round (s : Sign) (hm : 0 < m) (hx : m * 2 ^ e ≤ largest) : ∃ v : ℚ,
    value (Float.Model.pack (round Format.binary64 s m e)).unpack = some (signed s v) ∧
      ∀ y, Representable y → (y ≤ m * 2 ^ e → y ≤ v) ∧ (m * 2 ^ e ≤ y → v ≤ y) := by
  obtain ⟨k, hk⟩ : ∃ k, (e - target m e).toNat = k := ⟨_, rfl⟩
  have hround : round Format.binary64 s m e =
      roundWithAccuracy Format.binary64 s (m <<< k) (e - k) .exact := by
    rw [← hk]
    rfl
  have htarget : target (m <<< k) (e - k) = target m e := by
    rw [target_eq, target_eq m e, log2_shiftLeft hm.ne']
    push_cast
    omega
  have happrox := approx_exact (m <<< k) (e - k)
  rw [shiftLeft_mul] at happrox
  rw [hround]
  exact value_roundWithAccuracy s happrox (by omega) hx

/-- A representable number is not rounded. -/
theorem value_normalize (n : ℤ) (e : ℤ) (zeroSign : Sign) (h : Representable (|(n : ℚ)| * 2 ^ e))
    (hle : |(n : ℚ)| * 2 ^ e ≤ largest) :
    value (Float.Model.pack (UnpackedFloat.normalize Format.binary64 n e zeroSign)).unpack =
      some ((n : ℚ) * 2 ^ e) := by
  unfold UnpackedFloat.normalize
  rcases lt_trichotomy n 0 with hn | rfl | hn
  · have habs : ((-n).toNat : ℚ) = |(n : ℚ)| := by
      rw [abs_of_neg (Int.cast_lt_zero.mpr hn), ← Int.cast_neg, ← Int.cast_natCast,
        Int.toNat_of_nonneg (by omega)]
    rw [Int.compare_eq_lt.mpr hn]
    rw [← habs] at h hle
    obtain ⟨v, hv, hside⟩ := value_round .negative (by omega) hle
    obtain rfl := le_antisymm ((hside _ h).2 le_rfl) ((hside _ h).1 le_rfl)
    refine hv.trans (congrArg some ?_)
    rw [signed, habs, abs_of_neg (Int.cast_lt_zero.mpr hn), neg_mul, neg_neg]
  · rw [Int.cast_zero, zero_mul, compare_eq_iff_eq.mpr rfl]
    exact value_zero zeroSign
  · have habs : (n.toNat : ℚ) = |(n : ℚ)| := by
      rw [abs_of_pos (Int.cast_pos.mpr hn), ← Int.cast_natCast, Int.toNat_of_nonneg hn.le]
    rw [Int.compare_eq_gt.mpr hn]
    rw [← habs] at h hle
    obtain ⟨v, hv, hside⟩ := value_round .positive (by omega) hle
    obtain rfl := le_antisymm ((hside _ h).2 le_rfl) ((hside _ h).1 le_rfl)
    refine hv.trans (congrArg some ?_)
    rw [signed, habs, abs_of_pos (Int.cast_pos.mpr hn)]

/-- Rounding a mantissa that is not negative crosses no representable number. -/
theorem value_normalize_nonneg {n : ℤ} {e : ℤ} (zeroSign : Sign) (hn : 0 ≤ n)
    (hle : (n : ℚ) * 2 ^ e ≤ largest) : ∃ v : ℚ,
      value (Float.Model.pack (UnpackedFloat.normalize Format.binary64 n e zeroSign)).unpack =
        some v ∧
      ∀ y, Representable y → (y ≤ n * 2 ^ e → y ≤ v) ∧ ((n : ℚ) * 2 ^ e ≤ y → v ≤ y) := by
  unfold UnpackedFloat.normalize
  rcases hn.eq_or_lt with rfl | hn
  · rw [Int.cast_zero, zero_mul, compare_eq_iff_eq.mpr rfl]
    exact ⟨0, value_zero zeroSign, fun y _ => ⟨id, id⟩⟩
  · have hcast : (n : ℚ) = n.toNat := by
      rw [← Int.cast_natCast, Int.toNat_of_nonneg hn.le]
    rw [Int.compare_eq_gt.mpr hn]
    rw [hcast] at hle ⊢
    exact value_round .positive (by omega) hle

/-! ## Operations -/

theorem value_ofInt_nonneg {n : ℤ} (hn : 0 ≤ n) (hle : (n : ℚ) ≤ largest) : ∃ v : ℚ,
    value (Float.Model.ofInt n).unpack = some v ∧
      ∀ y, Representable y → (y ≤ n → y ≤ v) ∧ ((n : ℚ) ≤ y → v ≤ y) := by
  have hone : (n : ℚ) * 2 ^ (0 : ℤ) = n := by rw [zpow_zero, mul_one]
  have hround := value_normalize_nonneg .positive hn (e := 0) (by rwa [hone])
  rw [hone] at hround
  exact hround

/-- An integer that is representable is not rounded. -/
theorem value_ofInt {n : ℤ} (h : Representable |(n : ℚ)|) (hle : |(n : ℚ)| ≤ largest) :
    value (Float.Model.ofInt n).unpack = some (n : ℚ) := by
  have hone : |(n : ℚ)| * 2 ^ (0 : ℤ) = |(n : ℚ)| := by rw [zpow_zero, mul_one]
  refine (value_normalize n 0 .positive ?_ ?_).trans (by rw [zpow_zero, mul_one])
  · rwa [hone]
  · rwa [hone]

/-- The finite floats that are not negative. -/
theorem representable_of_value {f : Float.Model} {x : ℚ} (h : value f.unpack = some x)
    (hx : 0 ≤ x) : Representable x ∧ x ≤ largest := by
  cases hf : f.unpack with
  | notANumber => rw [hf] at h; cases h
  | infinity s => rw [hf] at h; cases h
  | zero s =>
    rw [hf] at h
    cases h
    exact ⟨representable_zero, (by positivity : (0 : ℚ) ≤ 2 ^ 1023).trans
      two_pow_le_largest⟩
  | finite s m e hm =>
    obtain ⟨hc, he⟩ := canonical_of_unpack hf
    rw [hf, value, apply_mul] at h
    have hpos : (0 : ℚ) < m * 2 ^ e := mul_pos (Nat.cast_pos.mpr hm) (two_zpow_pos e)
    cases s with
    | negative =>
      cases h
      exact absurd hx (not_le.mpr (neg_neg_of_pos hpos))
    | positive =>
      cases h
      refine ⟨⟨m, e, hc.bits.le, hc.exponent, rfl⟩, ?_⟩
      have hm : (m : ℚ) ≤ 2 ^ 53 - 1 := by
        have hbits : ((m + 1 : ℕ) : ℚ) ≤ (2 ^ 53 : ℕ) := Nat.cast_le.mpr hc.bits
        push_cast at hbits
        linarith only [hbits]
      have hpow : (2 : ℚ) ^ e ≤ 2 ^ 971 := by
        exact_mod_cast zpow_le_zpow_right₀ (by norm_num : (1 : ℚ) ≤ 2) he
      exact mul_le_mul hm hpow (two_zpow_pos e).le (by norm_num)

/-- What packs again is what was unpacked. -/
theorem value_pack_unpack (f : Float.Model) :
    value (Float.Model.pack f.unpack).unpack = value f.unpack := by
  cases h : f.unpack with
  | notANumber => rfl
  | infinity s => cases s <;> rfl
  | zero s => cases s <;> rfl
  | finite s m e hm =>
    obtain ⟨hc, he⟩ := canonical_of_unpack h
    rw [unpack_pack hc he]

theorem value_neg_finite {s : Sign} {m : ℕ} {e : ℤ} {hm : 0 < m} (hc : Canonical m e)
    (he : e ≤ 971) : value (Float.Model.pack (.finite (-s) m e hm)).unpack =
      some (-signed s (m * 2 ^ e)) := by
  rw [unpack_pack hc he, value, apply_mul]
  cases s
  · show some _ = some (- -_)
    rw [neg_neg]
    rfl
  · rfl

theorem decreaseExponent_mul (s : Sign) (m : ℕ) {e e' : ℤ} (h : e' ≤ e) :
    ((s.apply ((decreaseExponent m e e').1 : ℤ) : ℤ) : ℚ) * 2 ^ e' = signed s (m * 2 ^ e) := by
  have hexp : e' = e - (e - e').toNat := by omega
  rw [apply_mul]
  have hshift := shiftLeft_mul m (e - e').toNat e
  rw [← hexp] at hshift
  exact congrArg (signed s) hshift

section

variable {f g : Float.Model} {x y : ℚ}

/-- A sum that is representable is not rounded. -/
theorem value_add (hf : value f.unpack = some x) (hg : value g.unpack = some y)
    (h : Representable |x + y|) (hle : |x + y| ≤ largest) :
    value (f + g).unpack = some (x + y) := by
  show value (Float.Model.pack (UnpackedFloat.add Format.binary64 f.unpack g.unpack)).unpack = _
  cases hfu : f.unpack with
  | notANumber => rw [hfu] at hf; cases hf
  | infinity s => rw [hfu] at hf; cases hf
  | zero s =>
    rw [hfu] at hf
    cases hf
    rw [zero_add, ← hg]
    cases hgu : g.unpack with
    | notANumber => rw [hgu] at hg; cases hg
    | infinity s' => rw [hgu] at hg; cases hg
    | zero s' => cases s <;> cases s' <;> exact value_zero _
    | finite s' m' e' hm' => rw [← hgu, ← value_pack_unpack g, hgu]; rfl
  | finite s m e hm =>
    cases hgu : g.unpack with
    | notANumber => rw [hgu] at hg; cases hg
    | infinity s' => rw [hgu] at hg; cases hg
    | zero s' =>
      rw [hgu] at hg
      cases hg
      rw [add_zero, ← hf, ← value_pack_unpack f, hfu]
      rfl
    | finite s' m' e' hm' =>
      rw [hfu, value, apply_mul] at hf
      rw [hgu, value, apply_mul] at hg
      cases hf
      cases hg
      have hsum : (((s.apply ((decreaseExponent m e (min e e')).1 : ℤ) +
          s'.apply ((decreaseExponent m' e' (min e e')).1 : ℤ) : ℤ)) : ℚ) * 2 ^ min e e' =
            signed s (m * 2 ^ e) + signed s' (m' * 2 ^ e') := by
        rw [Int.cast_add, add_mul, decreaseExponent_mul s m (min_le_left e e'),
          decreaseExponent_mul s' m' (min_le_right e e')]
      rw [← hsum, abs_mul, abs_of_pos (two_zpow_pos _)] at h hle
      rw [← hsum]
      exact value_normalize _ _ .positive h hle

theorem sub_finite {s s' : Sign} {m m' : ℕ} {e e' : ℤ} {hm : 0 < m} {hm' : 0 < m'}
    (hf : f.unpack = .finite s m e hm) (hg : g.unpack = .finite s' m' e' hm') :
    ∃ n j : ℤ, f - g = Float.Model.pack (UnpackedFloat.normalize Format.binary64 n j .positive) ∧
      (n : ℚ) * 2 ^ j = signed s (m * 2 ^ e) - signed s' (m' * 2 ^ e') := by
  refine ⟨s.apply ((decreaseExponent m e (min e e')).1 : ℤ) -
    s'.apply ((decreaseExponent m' e' (min e e')).1 : ℤ), min e e', ?_, ?_⟩
  · show Float.Model.pack (UnpackedFloat.sub Format.binary64 f.unpack g.unpack) = _
    rw [hf, hg]
    rfl
  · rw [Int.cast_sub, sub_mul, decreaseExponent_mul s m (min_le_left e e'),
      decreaseExponent_mul s' m' (min_le_right e e')]

/-- A difference that is representable is not rounded. -/
theorem value_sub (hf : value f.unpack = some x) (hg : value g.unpack = some y)
    (h : Representable |x - y|) (hle : |x - y| ≤ largest) :
    value (f - g).unpack = some (x - y) := by
  have hsub : f - g = Float.Model.pack (UnpackedFloat.sub Format.binary64 f.unpack g.unpack) := rfl
  cases hfu : f.unpack with
  | notANumber => rw [hfu] at hf; cases hf
  | infinity s => rw [hfu] at hf; cases hf
  | zero s =>
    rw [hfu] at hf
    cases hf
    rw [hsub, hfu]
    cases hgu : g.unpack with
    | notANumber => rw [hgu] at hg; cases hg
    | infinity s' => rw [hgu] at hg; cases hg
    | zero s' =>
      rw [hgu] at hg
      cases hg
      rw [sub_zero]
      cases s <;> cases s' <;> exact value_zero _
    | finite s' m' e' hm' =>
      obtain ⟨hc, he⟩ := canonical_of_unpack hgu
      rw [hgu, value, apply_mul] at hg
      cases hg
      rw [zero_sub]
      exact value_neg_finite hc he
  | finite s m e hm =>
    cases hgu : g.unpack with
    | notANumber => rw [hgu] at hg; cases hg
    | infinity s' => rw [hgu] at hg; cases hg
    | zero s' =>
      rw [hgu] at hg
      cases hg
      rw [hsub, hfu, hgu, sub_zero, ← hf, ← value_pack_unpack f, hfu]
      rfl
    | finite s' m' e' hm' =>
      obtain ⟨n, j, hnormalize, hdiff⟩ := sub_finite hfu hgu
      rw [hfu, value, apply_mul] at hf
      rw [hgu, value, apply_mul] at hg
      cases hf
      cases hg
      rw [← hdiff, abs_mul, abs_of_pos (two_zpow_pos _)] at h hle
      rw [hnormalize, ← hdiff]
      exact value_normalize _ _ .positive h hle

/-- A difference that is not negative is rounded to a number between zero and the first. -/
theorem value_sub_between (hf : value f.unpack = some x) (hg : value g.unpack = some y)
    (hy : 0 ≤ y) (hyx : y ≤ x) : ∃ v, value (f - g).unpack = some v ∧ 0 ≤ v ∧ v ≤ x := by
  obtain ⟨hx, hle⟩ := representable_of_value hf (hy.trans hyx)
  by_cases hdiff : Representable |x - y|
  · have habs : |x - y| = x - y := abs_of_nonneg (sub_nonneg.mpr hyx)
    refine ⟨x - y, value_sub hf hg hdiff ?_, sub_nonneg.mpr hyx, sub_le_self x hy⟩
    rw [habs]
    exact (sub_le_self x hy).trans hle
  · -- Neither of the two is zero.
    have hy0 : y ≠ 0 := by
      rintro rfl
      rw [sub_zero, abs_of_nonneg hyx] at hdiff
      exact hdiff hx
    have hx0 : x ≠ 0 := fun h => hy0 (le_antisymm (h ▸ hyx) hy)
    cases hfu : f.unpack with
    | notANumber => rw [hfu] at hf; cases hf
    | infinity s => rw [hfu] at hf; cases hf
    | zero s => rw [hfu] at hf; exact absurd (Option.some.inj hf).symm hx0
    | finite s m e hm =>
      cases hgu : g.unpack with
      | notANumber => rw [hgu] at hg; cases hg
      | infinity s' => rw [hgu] at hg; cases hg
      | zero s' => rw [hgu] at hg; exact absurd (Option.some.inj hg).symm hy0
      | finite s' m' e' hm' =>
        obtain ⟨n, j, hnormalize, hvalue⟩ := sub_finite hfu hgu
        rw [hfu, value, apply_mul] at hf
        rw [hgu, value, apply_mul] at hg
        rw [Option.some.inj hf, Option.some.inj hg] at hvalue
        have hn : 0 ≤ n := by
          refine Int.cast_nonneg_iff.mp (nonneg_of_mul_nonneg_left ?_ (two_zpow_pos j))
          rw [hvalue]
          exact sub_nonneg.mpr hyx
        obtain ⟨v, hv, hside⟩ := value_normalize_nonneg .positive hn
          (hvalue ▸ (sub_le_self x hy).trans hle)
        rw [hvalue] at hside
        rw [hnormalize]
        exact ⟨v, hv, (hside 0 representable_zero).1 (sub_nonneg.mpr hyx),
          (hside x hx).2 (sub_le_self x hy)⟩

end

theorem value_nan : value (Float.Model.pack .notANumber).unpack = none := rfl

theorem unpack_infinity (s : Sign) :
    (Float.Model.pack (.infinity s)).unpack = .infinity s := by
  cases s <;> rfl

theorem value_infinity (s : Sign) : value (Float.Model.pack (.infinity s)).unpack = none := by
  cases s <;> rfl

/-- What is not finite stays so when something is subtracted from it. -/
theorem value_sub_none {f : Float.Model} (hf : value f.unpack = none) (g : Float.Model) :
    value (f - g).unpack = none := by
  show value (Float.Model.pack (UnpackedFloat.sub Format.binary64 f.unpack g.unpack)).unpack = _
  cases hfu : f.unpack with
  | notANumber => exact value_nan
  | infinity s =>
    cases g.unpack with
    | notANumber => exact value_nan
    | infinity s' =>
      rw [UnpackedFloat.sub]
      split
      · exact value_infinity s
      · exact value_nan
    | zero s' => exact value_infinity s
    | finite s' m e hm => exact value_infinity s
  | zero s => rw [hfu] at hf; cases hf
  | finite s m e hm => rw [hfu] at hf; cases hf

theorem value_mul_none {f : Float.Model} (hf : value f.unpack = none) (g : Float.Model) :
    value (f * g).unpack = none := by
  show value (Float.Model.pack (UnpackedFloat.mul Format.binary64 f.unpack g.unpack)).unpack = _
  cases hfu : f.unpack with
  | notANumber => exact value_nan
  | infinity s =>
    cases g.unpack with
    | notANumber => exact value_nan
    | infinity s' => exact value_infinity _
    | zero s' => exact value_nan
    | finite s' m e hm => exact value_infinity _
  | zero s => rw [hfu] at hf; cases hf
  | finite s m e hm => rw [hfu] at hf; cases hf

/-- The quotient of two natural numbers is rounded once. -/
theorem value_div (s : Sign) {m n : ℕ} (hm : 0 < m) (hn : 0 < n)
    (hx : (m : ℚ) / n ≤ largest) : ∃ v : ℚ,
      value (Float.Model.pack (UnpackedFloat.div Format.binary64 (.finite s m 0 hm)
        (.finite .positive n 0 hn))).unpack = some (signed s v) ∧
      ∀ y, Representable y → (y ≤ (m : ℚ) / n → y ≤ v) ∧ ((m : ℚ) / n ≤ y → v ≤ y) := by
  have hn' : (0 : ℚ) < n := Nat.cast_pos.mpr hn
  obtain ⟨k, hk⟩ : ∃ k : ℕ, min (0 - 0)
      (Format.binary64.targetExponent (totalExponent m 0 - totalExponent n 0)) = -(k : ℤ) :=
    ⟨(-min 0 (Format.binary64.targetExponent (totalExponent m 0 - totalExponent n 0))).toNat,
      by omega⟩
  have hdiv : UnpackedFloat.div Format.binary64 (.finite s m 0 hm) (.finite .positive n 0 hn) =
      roundWithAccuracy Format.binary64 s (m <<< k / n) (-k)
        (accuracyOfFraction (m <<< k % n) n) := by
    have hsign : s / .positive = s := by cases s <;> rfl
    have hshift : (0 - 0 - -(k : ℤ)).toNat = k := by omega
    simp only [UnpackedFloat.div, divCore, hk, hsign, hshift]
  have hvalue : (m : ℚ) / n = ((m <<< k : ℕ) : ℚ) / n * 2 ^ (-(k : ℤ)) := by
    have hmul := shiftLeft_mul m k 0
    rw [zero_sub, zpow_zero, mul_one] at hmul
    rw [div_mul_eq_mul_div, hmul]
  have happrox : Approx (m <<< k / n) (-k) (accuracyOfFraction (m <<< k % n) n) ((m : ℚ) / n) := by
    rw [hvalue]
    constructor
    · exact mul_le_mul_of_nonneg_right Nat.cast_div_le (two_zpow_pos _).le
    · refine mul_lt_mul_of_pos_right ?_ (two_zpow_pos _)
      rw [div_lt_iff₀ hn']
      have hlt := Nat.lt_mul_div_succ (m <<< k) hn
      rw [mul_comm] at hlt
      exact_mod_cast hlt
    · intro heq
      have hquot := mul_right_cancel₀ (two_zpow_pos (-(k : ℤ))).ne' heq
      rw [div_eq_iff hn'.ne'] at hquot
      have hexact : m <<< k = m <<< k / n * n := by exact_mod_cast hquot
      have hmod : m <<< k % n = 0 := by
        rw [hexact]
        exact Nat.mul_mod_left _ _
      rw [accuracyOfFraction, if_pos hmod]
  rw [hdiv]
  refine value_roundWithAccuracy s happrox ?_ hx
  -- The quotient has enough bits, or the least exponent.
  simp only [Format.targetExponent, totalExponent, Format.mantissaBits, Format.minExponent] at hk
  rw [target_eq]
  by_cases hmin : (-(k : ℤ)) ≤ -1074
  · omega
  have hbits : 2 ^ 52 ≤ m <<< k / n := by
    rw [Nat.le_div_iff_mul_le hn, Nat.shiftLeft_eq]
    calc 2 ^ 52 * n ≤ 2 ^ 52 * 2 ^ (n.log2 + 1) := Nat.mul_le_mul_left _ Nat.lt_log2_self.le
      _ = 2 ^ (52 + (n.log2 + 1)) := (pow_add ..).symm
      _ ≤ 2 ^ (m.log2 + k) := Nat.pow_le_pow_right (by decide) (by omega)
      _ = 2 ^ m.log2 * 2 ^ k := pow_add ..
      _ ≤ m * 2 ^ k := Nat.mul_le_mul_right _ (Nat.log2_self_le hm.ne')
  have hlog : 52 ≤ (m <<< k / n).log2 := (Nat.le_log2 (by omega)).mpr hbits
  omega

theorem signed_nonneg {s : Sign} {q : ℚ} (hq : 0 < q) (h : 0 ≤ signed s q) : s = .positive := by
  cases s with
  | positive => rfl
  | negative => exact absurd h (not_le.mpr (neg_neg_of_pos hq))

/-- The product of two numbers that are not negative is rounded once. -/
theorem value_mul {f g : Float.Model} {x y : ℚ} (hf : value f.unpack = some x)
    (hg : value g.unpack = some y) (hx : 0 ≤ x) (hy : 0 ≤ y) (hle : x * y ≤ largest) : ∃ v : ℚ,
      value (f * g).unpack = some v ∧
      ∀ z, Representable z → (z ≤ x * y → z ≤ v) ∧ (x * y ≤ z → v ≤ z) := by
  show ∃ v : ℚ,
    value (Float.Model.pack (UnpackedFloat.mul Format.binary64 f.unpack g.unpack)).unpack =
      some v ∧ _
  cases hfu : f.unpack with
  | notANumber => rw [hfu] at hf; cases hf
  | infinity s => rw [hfu] at hf; cases hf
  | zero s =>
    rw [hfu] at hf
    cases hf
    rw [zero_mul]
    refine ⟨0, ?_, fun _ _ => ⟨id, id⟩⟩
    cases hgu : g.unpack with
    | notANumber => rw [hgu] at hg; cases hg
    | infinity s' => rw [hgu] at hg; cases hg
    | zero s' => exact value_zero _
    | finite s' m' e' hm' => exact value_zero _
  | finite s m e hm =>
    cases hgu : g.unpack with
    | notANumber => rw [hgu] at hg; cases hg
    | infinity s' => rw [hgu] at hg; cases hg
    | zero s' =>
      rw [hgu] at hg
      cases hg
      rw [mul_zero]
      exact ⟨0, value_zero _, fun _ _ => ⟨id, id⟩⟩
    | finite s' m' e' hm' =>
      rw [hfu, value, apply_mul] at hf
      rw [hgu, value, apply_mul] at hg
      cases hf
      cases hg
      obtain rfl := signed_nonneg (mul_pos (Nat.cast_pos.mpr hm) (two_zpow_pos e)) hx
      obtain rfl := signed_nonneg (mul_pos (Nat.cast_pos.mpr hm') (two_zpow_pos e')) hy
      have hproduct : (m : ℚ) * 2 ^ e * (m' * 2 ^ e') = ((m * m' : ℕ) : ℚ) * 2 ^ (e + e') := by
        rw [zpow_add₀ (by norm_num)]
        push_cast
        ring
      simp only [signed] at hle ⊢
      rw [hproduct] at hle ⊢
      refine value_roundWithAccuracy .positive (approx_exact (m * m') (e + e')) ?_ hle
      -- one of the mantissas has all bits, or both exponents are the least
      have hc := (canonical_of_unpack hfu).1
      have hc' := (canonical_of_unpack hgu).1
      rw [target_eq]
      by_cases hleast : e + e' ≤ -1074
      · omega
      have hbits : 2 ^ 52 ≤ m * m' := by
        rcases hc.normal with he | hnormal
        · rcases hc'.normal with he' | hnormal'
          · omega
          · exact hnormal'.trans (Nat.le_mul_of_pos_left m' hm)
        · exact hnormal.trans (Nat.le_mul_of_pos_right m hm')
      have hlog : 52 ≤ (m * m').log2 := (Nat.le_log2 (mul_pos hm hm').ne').mpr hbits
      omega

/-- A number below `2 ^ 53` steps of a grid is rounded by one step at most. -/
theorem near_of_sides {x v : ℚ} (hside : ∀ y, Representable y → (y ≤ x → y ≤ v) ∧ (x ≤ y → v ≤ y))
    (hx : 0 ≤ x) {j : ℤ} (hj : -1074 ≤ j) (hlt : x < 2 ^ 53 * 2 ^ j) : |v - x| ≤ 2 ^ j := by
  have hpos := two_zpow_pos j
  have hfloor : (⌊x / 2 ^ j⌋₊ : ℚ) * 2 ^ j ≤ x :=
    (le_div_iff₀ hpos).mp (Nat.floor_le (div_nonneg hx hpos.le))
  have hceil : x < (⌊x / 2 ^ j⌋₊ + 1 : ℚ) * 2 ^ j := (div_lt_iff₀ hpos).mp (Nat.lt_floor_add_one _)
  have hcount : ⌊x / 2 ^ j⌋₊ < 2 ^ 53 := by
    have hlt' : (⌊x / 2 ^ j⌋₊ : ℚ) * 2 ^ j < ((2 ^ 53 : ℕ) : ℚ) * 2 ^ j := by
      push_cast
      exact hfloor.trans_lt hlt
    exact lt_of_cast_mul_lt hlt'
  have hlow := (hside _ ⟨⌊x / 2 ^ j⌋₊, j, hcount.le, hj, rfl⟩).1 hfloor
  have hhigh := (hside _ ⟨⌊x / 2 ^ j⌋₊ + 1, j, hcount, hj, rfl⟩).2 (by push_cast; exact hceil.le)
  push_cast at hhigh
  rw [abs_le]
  constructor <;> linarith

end Binary64
