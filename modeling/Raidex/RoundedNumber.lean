import Raidex.ExactNumber
import Raidex.Lib.FloatOrder
import Raidex.Lib.ListUpdate
import Raidex.Lib.Outcome

/-!
# Raidex.RoundedNumber

The `float` next to a rational number, and the arithmetic of `float`s that does not round.

* `exact_eq_value`: the number of a `float` is that of the binary64 model.
* `ofRat`: the rounding of a rational number. `exact_ofRat`: it crosses no representable one.
* `add_exact`, `subInt_exact`: sums and differences of numbers on one grid are not rounded.
* `subInt_le`: a difference that is not negative is rounded to one that is not negative and fits no
  more integers.
* `sum`: the sum of some numbers, in the arithmetic of the source; `sum_ints`, `sum_grid`: when it
  is the exact one.
-/

namespace Raidex

namespace Double

open Float.Model (UnpackedFloat)
open Binary64 (Representable)

def signOf (n : ℤ) : UnpackedFloat.Sign := if 0 ≤ n then .positive else .negative

/-- The nearest `float`, as the quotient of two numbers is rounded. -/
def ofRat (q : ℚ) : Double :=
  if h : q.num = 0 then Float.Model.ofInt 0
  else .pack (UnpackedFloat.div .binary64
    (.finite (signOf q.num) q.num.natAbs 0 (Int.natAbs_pos.mpr h))
    (.finite .positive q.den 0 q.den_pos))

/-- `a / b`, of integers. -/
def divideInt (a b : ℤ) : Except PyError Double :=
  if b = 0 then .error .zeroDivisionError
  else if (ofRat (a / b)).isInf then .error .overflowError
  else .ok (ofRat (a / b))

theorem exact_eq_value (f : Double) : f.exact = Binary64.value f.unpack := by
  unfold exact
  cases h : f.unpack with
  | notANumber => rfl
  | infinity s => rfl
  | zero s => rfl
  | finite s m e hm =>
    have hmagnitude : (((m * 2 ^ e.toNat : ℤ) : ℚ)) / 2 ^ (-e).toNat = m * 2 ^ e := by
      push_cast
      rcases le_total 0 e with he | he
      · have hneg : (-e).toNat = 0 := by omega
        conv_rhs => rw [← Int.toNat_of_nonneg he]
        rw [hneg, pow_zero, div_one, zpow_natCast]
      · have hpos : e.toNat = 0 := by omega
        have hexp : e = -((-e).toNat : ℤ) := by omega
        conv_rhs => rw [hexp, zpow_neg, zpow_natCast]
        rw [hpos, pow_zero, mul_one, div_eq_mul_inv]
    rw [Binary64.value, Binary64.apply_mul, ← hmagnitude]
    cases s with
    | positive => rfl
    | negative =>
      show some _ = some (-_)
      rw [← neg_div, Int.cast_neg]

/-- A number with a value is no infinity. -/
theorem isInf_of_exact {f : Double} {q : ℚ} (h : f.exact = some q) : f.isInf = false := by
  unfold exact at h
  unfold Float.Model.isInf
  cases hf : f.unpack with
  | infinity s => rw [hf] at h; cases h
  | notANumber => rfl
  | zero s => rfl
  | finite s m e hm => rfl

/-- Rounding a number that is not negative crosses no representable number. -/
theorem exact_ofRat {q : ℚ} (hq : 0 ≤ q) (hle : q ≤ 2 ^ 1023) : ∃ v : ℚ,
    (ofRat q).exact = some v ∧ ∀ y, Representable y → (y ≤ q → y ≤ v) ∧ (q ≤ y → v ≤ y) := by
  rw [exact_eq_value]
  unfold ofRat
  split
  next h =>
    have hzero : q = 0 := Rat.num_eq_zero.mp h
    subst hzero
    exact ⟨0, rfl, fun y _ => ⟨id, id⟩⟩
  next h =>
    have hnum : 0 ≤ q.num := Rat.num_nonneg.mpr hq
    have hvalue : (q.num.natAbs : ℚ) / q.den = q := by
      rw [Nat.cast_natAbs, abs_of_nonneg hnum, Rat.num_div_den]
    obtain ⟨v, hv, hside⟩ := Binary64.value_div (signOf q.num) (Int.natAbs_pos.mpr h) q.den_pos
      (by rw [hvalue]; exact hle.trans Binary64.two_pow_le_largest)
    rw [hvalue] at hside
    refine ⟨v, hv.trans ?_, hside⟩
    rw [signOf, if_pos hnum]
    rfl

/-- The quotient of integers is rounded to a number between the integers around it. -/
theorem divideInt_ok {a b : ℕ} (hb : 0 < b) (hle : (a : ℚ) / b ≤ 2 ^ 1023) : ∃ f v,
    divideInt a b = .ok f ∧ f.exact = some v ∧
      ∀ y, Representable y → (y ≤ (a : ℚ) / b → y ≤ v) ∧ ((a : ℚ) / b ≤ y → v ≤ y) := by
  have hpos : (0 : ℚ) ≤ a / b := div_nonneg (Nat.cast_nonneg a) (Nat.cast_nonneg b)
  obtain ⟨v, hv, hside⟩ := exact_ofRat hpos hle
  refine ⟨ofRat (a / b), v, ?_, hv, hside⟩
  have hne : (b : ℤ) ≠ 0 := by omega
  unfold divideInt
  rw [if_neg hne]
  simp only [Int.cast_natCast, isInf_of_exact hv]
  rfl

/-- An integer that is representable becomes a `float` without rounding. -/
theorem ofInt_exact {n : ℤ} (h : Representable |(n : ℚ)|) (hle : |(n : ℚ)| ≤ Binary64.largest) :
    ∃ f, ofInt n = .ok f ∧ f.exact = some (n : ℚ) := by
  have hvalue : exact (Float.Model.ofInt n) = some (n : ℚ) :=
    (exact_eq_value _).trans (Binary64.value_ofInt h hle)
  refine ⟨Float.Model.ofInt n, ?_, hvalue⟩
  unfold ofInt
  rw [isInf_of_exact hvalue]
  rfl

theorem ofInt_eq_ok {n : ℤ} {f : Double} (h : ofInt n = .ok f) :
    f = Float.Model.ofInt n ∧ f.isInf = false := by
  unfold ofInt at h
  split at h
  · cases h
  next hinf =>
    cases h
    exact ⟨rfl, Bool.eq_false_iff.mpr hinf⟩

end Double

/-! ## Exact sums and differences -/

namespace Number

open Binary64 (OnGrid largest)

/-- Adds up as the source does, from the `int` zero on. -/
def sum (as : List Number) : Except PyError Number := as.foldlM add (.int 0)

section

variable {a b : Number} {x y : ℚ} {j : ℤ}

theorem toFloat_exact (ha : a.exact = some x) (hj : -1074 ≤ j) (hx : OnGrid j x)
    (hle : x ≤ largest) : ∃ f, a.toFloat = .ok f ∧ f.exact = some x := by
  cases a with
  | int n =>
    cases ha
    exact Double.ofInt_exact (hx.representable hj) (by rwa [abs_of_nonneg hx.nonneg])
  | float f => exact ⟨f, rfl, ha⟩

theorem add_exact (ha : a.exact = some x) (hb : b.exact = some y) (hj : -1074 ≤ j)
    (hx : OnGrid j x) (hy : OnGrid j y) (hgrid : x + y ≤ 2 ^ 53 * 2 ^ j)
    (hle : x + y ≤ largest) : ∃ c, a.add b = .ok c ∧ c.exact = some (x + y) := by
  have hfloat : ∃ c,
      (do return Number.float ((← a.toFloat) + (← b.toFloat)) : Except PyError Number) =
      .ok c ∧ c.exact = some (x + y) := by
    obtain ⟨f, hf, hfx⟩ := toFloat_exact ha hj hx ((le_add_of_nonneg_right hy.nonneg).trans hle)
    obtain ⟨g, hg, hgy⟩ := toFloat_exact hb hj hy ((le_add_of_nonneg_left hx.nonneg).trans hle)
    have hsum := hx.add hy hgrid
    refine ⟨.float (f + g), by rw [hf, hg]; rfl, ?_⟩
    show Double.exact (f + g) = _
    rw [Double.exact_eq_value] at hfx hgy ⊢
    exact Binary64.value_add hfx hgy (hsum.representable hj) (by rwa [abs_of_nonneg hsum.nonneg])
  cases a with
  | float f => exact hfloat
  | int m =>
    cases b with
    | float g => exact hfloat
    | int n =>
      cases ha
      cases hb
      exact ⟨.int (m + n), rfl, congrArg some (Int.cast_add m n)⟩

theorem subInt_exact {n : ℕ} (ha : a.exact = some x) (hj : -1074 ≤ j) (hx : OnGrid j x)
    (hn : OnGrid j n) (hnx : n ≤ x) (hle : x ≤ largest) :
    ∃ d, a.subInt n = .ok d ∧ d.exact = some (x - n) := by
  cases a with
  | int m =>
    cases ha
    exact ⟨.int (m - n), rfl, by simp [exact]⟩
  | float f =>
    obtain ⟨g, hg, hgn⟩ := Double.ofInt_exact (n := n) (by simpa using hn.representable hj)
      (by simpa using hnx.trans hle)
    have hdiff := hx.sub hn hnx
    refine ⟨.float (f - g), by rw [subInt, hg]; rfl, ?_⟩
    show Double.exact (f - g) = _
    change Double.exact f = _ at ha
    rw [Double.exact_eq_value] at ha hgn ⊢
    rw [Int.cast_natCast] at hgn
    refine Binary64.value_sub ha hgn (hdiff.representable hj) ?_
    rw [abs_of_nonneg hdiff.nonneg]
    exact (sub_le_self x (Nat.cast_nonneg n)).trans hle

end

/-! ## Numbers that are not finite -/

theorem subInt_none {a d : Number} {n : ℤ} (ha : a.exact = none) (h : a.subInt n = .ok d) :
    d.exact = none := by
  cases a with
  | int m => cases ha
  | float f =>
    obtain ⟨g, -, h⟩ := Except.bind_eq_ok.mp h
    cases h
    show Double.exact (f - g) = none
    change Double.exact f = none at ha
    rw [Double.exact_eq_value] at ha ⊢
    exact Binary64.value_sub_none ha g

/-- What can be multiplied and rounded to an `int` is finite. -/
theorem exact_of_truncate {a : Number} {f : Double} {n : ℤ}
    (h : (a.mulFloat f >>= Double.truncate) = .ok n) : ∃ x, a.exact = some x := by
  cases a with
  | int m => exact ⟨m, rfl⟩
  | float g =>
    refine Option.ne_none_iff_exists'.mp ?_
    intro hg
    change Double.truncate (g * f) = .ok n at h
    change Double.exact g = none at hg
    rw [Double.exact_eq_value] at hg
    have hproduct : Double.exact (g * f) = none :=
      (Double.exact_eq_value _).trans (Binary64.value_mul_none hg f)
    unfold Double.truncate at h
    unfold Double.exact at hproduct
    split at h
    next => cases h
    next => cases h
    next hzero => rw [hzero] at hproduct; cases hproduct
    next sign _ _ _ hfinite => rw [hfinite] at hproduct; cases sign <;> cases hproduct

/-! ## An integer that fits -/

section

variable {a d : Number} {n : ℤ}

/-- What an integer fits in is finite or `inf`. -/
theorem exact_of_le (h : le (.int n) a = true) : (∃ q, a.exact = some q ∧ (n : ℚ) ≤ q) ∨
    ∃ f : Double, a = .float f ∧ f.unpack = .infinity .positive := by
  cases hq : a.exact with
  | some q => exact .inl ⟨q, rfl, (le_exact hq).mp h⟩
  | none =>
    cases a with
    | int m => cases hq
    | float f =>
      refine .inr ⟨f, rfl, ?_⟩
      change Double.exact f = none at hq
      change (Double.compareInt n f).any Ordering.isLE = true at h
      unfold Double.exact at hq
      unfold Double.compareInt at h
      split at hq
      next hnan => rw [hnan] at h; cases h
      next s hinf =>
        rw [hinf] at h
        cases s with
        | positive => exact hinf
        | negative => cases h
      next => cases hq
      next sign _ _ _ _ => cases sign <;> cases hq

theorem le_infinity {f : Double} (hf : f.unpack = .infinity .positive) (n : ℤ) :
    le (.int n) (.float f) = true := by
  show (Double.compareInt n f).any Ordering.isLE = true
  rw [Double.compareInt, hf]
  rfl

/-- A number that is not negative compares with every integer. -/
theorem lt_of_not_le (h : le (.int 0) a = true) (hn : le (.int n) a = false) :
    lt a (.int n) = true := by
  rcases exact_of_le h with ⟨q, hq, -⟩ | ⟨f, rfl, hf⟩
  · have hlt : q < n := lt_of_not_ge fun hle => Bool.eq_false_iff.mp hn ((le_exact hq).mpr hle)
    rw [lt, compare_swap, compare_exact hq, compare_gt_iff_gt.mpr hlt]
    rfl
  · rw [le_infinity hf] at hn
    cases hn

/-- A natural number that fits leaves a number between zero and the first, however it is
rounded. -/
theorem subInt_between {n : ℕ} {q : ℚ} (ha : a.exact = some q) (hn : n ≤ q)
    (hd : a.subInt n = .ok d) : ∃ v, d.exact = some v ∧ 0 ≤ v ∧ v ≤ q := by
  have hnonneg : (0 : ℚ) ≤ n := Nat.cast_nonneg n
  cases a with
  | int b =>
    cases ha
    cases hd
    refine ⟨b - n, by simp [exact], sub_nonneg.mpr hn, sub_le_self _ hnonneg⟩
  | float f =>
    obtain ⟨g, hg, hd⟩ := Except.bind_eq_ok.mp hd
    cases hd
    obtain ⟨rfl, -⟩ := Double.ofInt_eq_ok hg
    have hf : Binary64.value f.unpack = some q := (Double.exact_eq_value f).symm.trans ha
    obtain ⟨hq, hle⟩ := Binary64.representable_of_value hf (hnonneg.trans hn)
    obtain ⟨y, hy, hside⟩ := Binary64.value_ofInt_nonneg (Int.natCast_nonneg n)
      (by rw [Int.cast_natCast]; exact hn.trans hle)
    rw [Int.cast_natCast] at hside
    obtain ⟨v, hv, hv0, hvq⟩ := Binary64.value_sub_between hf hy
      ((hside 0 Binary64.representable_zero).1 hnonneg) ((hside q hq).2 hn)
    exact ⟨v, (Double.exact_eq_value _).trans hv, hv0, hvq⟩

/-- What is left of a number when a natural number that fits is taken from it is not negative, and
no integer fits that did not fit before. -/
theorem subInt_le {n : ℕ} (hfits : le (.int n) a = true) (hd : a.subInt n = .ok d) :
    le (.int 0) d = true ∧ ∀ m, le (.int m) d = true → le (.int m) a = true := by
  rcases exact_of_le hfits with ⟨q, hq, hle⟩ | ⟨f, rfl, hf⟩
  · obtain ⟨v, hv, hv0, hvq⟩ := subInt_between hq (by exact_mod_cast hle) hd
    refine ⟨(le_exact hv).mpr (by rwa [Int.cast_zero]), fun m hm => ?_⟩
    exact (le_exact hq).mpr (((le_exact hv).mp hm).trans hvq)
  · obtain ⟨g, hg, hd⟩ := Except.bind_eq_ok.mp hd
    cases hd
    obtain ⟨rfl, hinf⟩ := Double.ofInt_eq_ok hg
    have hd := Binary64.infinity_sub hf (Binary64.isNumber_ofInt _) hinf
    exact ⟨le_infinity hd 0, fun m _ => le_infinity hf m⟩

end

/-! ## Sums -/

/-- The number, or zero for `inf` and `nan`. -/
def value (a : Number) : ℚ := a.exact.getD 0

section

variable {as bs : List Number} {j : ℤ}

theorem sum_ints (h : ∀ a ∈ as, ∃ n : ℤ, a = .int n) :
    ∃ c, sum as = .ok c ∧ c.exact = some (as.map value).sum := by
  suffices hacc : ∀ m : ℤ, ∃ c, as.foldlM add (.int m) = .ok c ∧
      c.exact = some (m + (as.map value).sum) by simpa [sum] using hacc 0
  intro m
  induction as generalizing m with
  | nil => exact ⟨.int m, rfl, by simp [exact]⟩
  | cons a as ih =>
    obtain ⟨n, rfl⟩ := h a List.mem_cons_self
    obtain ⟨c, hc, hvalue⟩ := ih (fun a ha => h a (List.mem_cons_of_mem _ ha)) (m + n)
    refine ⟨c, hc, hvalue.trans (congrArg some ?_)⟩
    rw [List.map_cons, List.sum_cons, Int.cast_add, add_assoc]
    rfl

/-- Numbers on a grid that has their sum. -/
theorem sum_grid (hj : -1074 ≤ j) (h : ∀ a ∈ as, a.exact = some a.value ∧ OnGrid j a.value)
    (hgrid : (as.map value).sum ≤ 2 ^ 53 * 2 ^ j) (hle : (as.map value).sum ≤ largest) :
    ∃ c, sum as = .ok c ∧ c.exact = some (as.map value).sum := by
  suffices hacc : ∀ (b : Number) (x : ℚ), b.exact = some x → OnGrid j x →
      x + (as.map value).sum ≤ 2 ^ 53 * 2 ^ j → x + (as.map value).sum ≤ largest →
      ∃ c, as.foldlM add b = .ok c ∧ c.exact = some (x + (as.map value).sum) by
    simpa [sum] using hacc (.int 0) 0 (by simp [exact]) ⟨0, by decide, by simp⟩
      (by simpa using hgrid)
      (by simpa using hle)
  clear hgrid hle
  induction as with
  | nil => exact fun b x hb _ _ _ => ⟨b, rfl, by simpa using hb⟩
  | cons a as ih =>
    intro b x hb hx hgrid hle
    obtain ⟨ha, hgrida⟩ := h a List.mem_cons_self
    have htail : ∀ a ∈ as, a.exact = some a.value ∧ OnGrid j a.value :=
      fun a ha => h a (List.mem_cons_of_mem _ ha)
    have hnonneg : 0 ≤ (as.map value).sum := List.sum_nonneg fun v hv => by
      obtain ⟨a, ha, rfl⟩ := List.mem_map.mp hv
      exact (htail a ha).2.nonneg
    rw [List.map_cons, List.sum_cons, ← add_assoc] at hgrid hle ⊢
    obtain ⟨c, hc, hcx⟩ := add_exact hb ha hj hx hgrida
      ((le_add_of_nonneg_right hnonneg).trans hgrid) ((le_add_of_nonneg_right hnonneg).trans hle)
    obtain ⟨d, hd, hdx⟩ := ih htail c _ hcx
      (hx.add hgrida ((le_add_of_nonneg_right hnonneg).trans hgrid)) hgrid hle
    exact ⟨d, by rw [List.foldlM_cons, hc]; exact hd, hdx⟩

/-- Positive numbers; the sum of some of them, in any order, is the exact one. -/
structure Addable (as : List Number) : Prop where
  positive : ∀ a ∈ as, a.exact = some a.value ∧ 0 < a.value
  sum : ∀ bs : List Number, bs.Subperm as →
    ∃ c, Number.sum bs = .ok c ∧ c.exact = some (bs.map value).sum

theorem Addable.subperm (h : Addable as) (hb : bs.Subperm as) : Addable bs :=
  ⟨fun a ha => h.positive a (hb.subset ha), fun cs hc => h.sum cs (hc.trans hb)⟩

theorem Addable.sum_le (h : Addable as) (hb : bs.Subperm as) :
    (bs.map value).sum ≤ (as.map value).sum :=
  hb.sum_map_le fun a ha => (h.positive a ha).2.le

theorem addable_ints (h : ∀ a ∈ as, ∃ n : ℤ, 0 < n ∧ a = .int n) : Addable as where
  positive a ha := by
    obtain ⟨n, hn, rfl⟩ := h a ha
    exact ⟨rfl, Int.cast_pos.mpr hn⟩
  sum bs hb := sum_ints fun a ha => by
    obtain ⟨n, -, rfl⟩ := h a (hb.subset ha)
    exact ⟨n, rfl⟩

theorem addable_grid (hj : -1074 ≤ j)
    (h : ∀ a ∈ as, a.exact = some a.value ∧ 0 < a.value ∧ OnGrid j a.value)
    (hgrid : (as.map value).sum ≤ 2 ^ 53 * 2 ^ j) (hle : (as.map value).sum ≤ largest) :
    Addable as where
  positive a ha := ⟨(h a ha).1, (h a ha).2.1⟩
  sum bs hb := by
    have hsum : (bs.map value).sum ≤ (as.map value).sum :=
      hb.sum_map_le fun a ha => (h a ha).2.1.le
    exact sum_grid hj (fun a ha => ⟨(h a (hb.subset ha)).1, (h a (hb.subset ha)).2.2⟩)
      (hsum.trans hgrid) (hsum.trans hle)

end

end Number

end Raidex
