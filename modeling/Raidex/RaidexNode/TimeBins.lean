import Raidex.RaidexNode.MarketViews

/-!
# Raidex.RaidexNode.TimeBins

The bins of the time line.

* `binStart`: where a bin starts; `binStart_le`, `lt_binStart`: the bin of a time is around it.
* `findTimeBin_eq`, `timeBinGen_tiles`: what the decimal arithmetic gives when every value fits.
* `time_bins_iff`: `time_bin_gen` gives consecutive starts, and `find_time_bin` stops at the next
  one exactly when there is no offset.
-/

namespace Raidex
namespace RaidexNode

open Decimal (Fits)

/-- The start of the bin that is `k` bins after the one of `t`. -/
def binStart (t b k : ℤ) : ℤ := (t / b + k) * b

/-- The starts of the last `n` bins up to the one of `t`. -/
def lastStarts (t : ℤ) (n : ℕ) (b : ℤ) : List ℤ :=
  (List.range n).map fun i : ℕ => binStart t b (i - (n - 1))

/-- The whole numbers that `find_time_bin` computes with. -/
def findTimeBinValues (t k b : ℤ) : List ℤ :=
  [b, k + 1, t / b, t / b * b, b * k, binStart t b k, b * (k + 1), binStart t b k + b * (k + 1)]

/-- The whole numbers that `time_bin_gen` computes with. -/
def timeBinGenValues (t : ℤ) (n : ℕ) (b : ℤ) : List ℤ :=
  [t / b, t / b * b, b * -n] ++ (List.range (n + 1)).map fun i : ℕ => binStart t b (i - n)

/-- `find_time_bin` gives the bin at the offset. -/
structure FindsBin (t k b : ℤ) : Prop where
  bin : findTimeBin getcontext t k b = .ok (binStart t b k, binStart t b k + b)
  next : binStart t b k + b = binStart t b (k + 1)
  around : k = 0 → binStart t b k ≤ t ∧ t < binStart t b k + b

section

variable {t k b : ℤ} {n : ℕ}

theorem binStart_succ (t b k : ℤ) : binStart t b k + b = binStart t b (k + 1) := by
  unfold binStart
  ring

theorem binStart_le (hb : 1 ≤ b) : binStart t b 0 ≤ t := by
  rw [binStart, add_zero]
  exact Int.ediv_mul_le t (by omega)

theorem lt_binStart (hb : 1 ≤ b) : t < binStart t b 0 + b := by
  rw [binStart_succ]
  exact Int.lt_ediv_add_one_mul_self t (by omega)

theorem lastStarts_increasing (hb : 1 ≤ b) (t : ℤ) (n : ℕ) :
    (lastStarts t n b).Pairwise (· < ·) := by
  unfold lastStarts
  rw [List.pairwise_map]
  refine List.pairwise_lt_range.imp ?_
  intro i j hij
  have hoffset : t / b + (i - (n - 1)) < t / b + (j - (n - 1)) := by omega
  exact mul_lt_mul_of_pos_right hoffset (by omega)

/-! ## Values that fit -/

theorem round_eq {x : ℚ} {m : ℤ} (hx : x = m) (hm : Fits 28 (m : ℚ)) : getcontext.round x = m := by
  rw [hx]
  exact Decimal.roundFloor_of_fits (by norm_num) hm

/-- Rounding the quotient does not lead to another bin. -/
theorem floor_round_div (hb : 1 ≤ b) (h : Fits 28 ((t / b : ℤ) : ℚ)) :
    ⌊getcontext.round ((t : ℚ) / b)⌋ = t / b := by
  have hfloor := floor_div_intCast hb t
  apply le_antisymm
  · rw [← hfloor]
    exact Int.floor_le_floor round_le
  · have hle : ((t / b : ℤ) : ℚ) ≤ t / b := by
      rw [← hfloor]
      exact Int.floor_le _
    exact Int.le_floor.mpr (Decimal.le_roundFloor (by norm_num) h hle)

/-- The offset is added to the stop time a second time. -/
theorem findTimeBin_eq (hb : 1 ≤ b) (h : ∀ x ∈ findTimeBinValues t k b, Fits 28 (x : ℚ)) :
    findTimeBin getcontext t k b = .ok (binStart t b k, binStart t b k + b * (k + 1)) := by
  simp only [findTimeBinValues, List.forall_mem_cons] at h
  obtain ⟨-, hnext, hbin, hlower, hshift, hstart, hnextShift, hstop, -⟩ := h
  have hne : (b : ℚ) ≠ 0 := Int.cast_ne_zero.mpr (by omega)
  have hdiv : decimalDiv getcontext t b = .ok (getcontext.round ((t : ℚ) / b)) := if_neg hne
  have hstopOffset : getcontext.round ((k : ℚ) + 1) = (k + 1 : ℤ) :=
    round_eq (by push_cast; rfl) hnext
  have hlowerTime : getcontext.round (((t / b : ℤ) : ℚ) * b) = (t / b * b : ℤ) :=
    round_eq (by push_cast; rfl) hlower
  have hoffset : getcontext.round ((b : ℚ) * k) = (b * k : ℤ) := round_eq (by push_cast; rfl) hshift
  have hstartTime : getcontext.round (((t / b * b : ℤ) : ℚ) + (b * k : ℤ)) = binStart t b k :=
    round_eq (by unfold binStart; push_cast; ring) hstart
  have hoffsets : getcontext.round ((b : ℚ) * (k + 1 : ℤ)) = (b * (k + 1) : ℤ) :=
    round_eq (by push_cast; rfl) hnextShift
  have hstopTime : getcontext.round ((binStart t b k : ℚ) + (b * (k + 1) : ℤ)) =
      (binStart t b k + b * (k + 1) : ℤ) := round_eq (by push_cast; rfl) hstop
  unfold findTimeBin
  simp only [hdiv, hstopOffset]
  show Except.ok (_, _) = _
  rw [floor_round_div hb hbin, hlowerTime, hoffset, hstartTime, hoffsets, hstopTime,
    truncate_intCast, truncate_intCast]

/-- Each step of the loop is exact. -/
theorem timeBins_eq {s : ℤ} (h : ∀ i < n, Fits 28 ((s + (i + 1) * b : ℤ) : ℚ)) :
    timeBins getcontext b n s = timeBins .exact b n s := by
  induction n generalizing s with
  | zero => rfl
  | succ n ih =>
    have hfirst : Fits 28 ((s + b : ℤ) : ℚ) := by simpa using h 0 (Nat.succ_pos n)
    have htime : getcontext.round ((s : ℚ) + b) = (s + b : ℤ) := round_eq (by push_cast; rfl) hfirst
    have hexact : Decimal.Context.exact.round ((s : ℚ) + b) = (s + b : ℤ) := by
      rw [Decimal.Context.round_exact]
      push_cast
      rfl
    have hrest : timeBins getcontext b n (s + b : ℤ) = timeBins .exact b n (s + b : ℤ) := by
      apply ih
      intro i hi
      have hi' := h (i + 1) (Nat.succ_lt_succ hi)
      push_cast at hi' ⊢
      convert hi' using 1
      ring
    rw [timeBins, timeBins, htime, hexact, hrest]

theorem timeBinGen_tiles (hb : 1 ≤ b) (h : ∀ x ∈ timeBinGenValues t n b, Fits 28 (x : ℚ)) :
    timeBinGen getcontext t n b = .ok (lastStarts t n b) := by
  simp only [timeBinGenValues, List.forall_mem_append, List.forall_mem_cons] at h
  obtain ⟨⟨hbin, hstop, hback, -⟩, hstarts⟩ := h
  have hfits (i : ℕ) (hi : i < n + 1) : Fits 28 (binStart t b (i - n) : ℚ) :=
    hstarts _ (List.mem_map.mpr ⟨i, List.mem_range.mpr hi, rfl⟩)
  have hstopTime : getcontext.round (((t / b : ℤ) : ℚ) * b) = (t / b * b : ℤ) :=
    round_eq (by push_cast; rfl) hstop
  have hbackTime : getcontext.round ((b : ℚ) * (-n : ℤ)) = (b * -n : ℤ) :=
    round_eq (by push_cast; rfl) hback
  have hstart : genStart getcontext t n b = binStart t b (-n) := by
    rw [genStart, floor_round_div hb hbin, hstopTime, hbackTime]
    apply round_eq
    · unfold binStart
      push_cast
      ring
    · simpa using hfits 0 (Nat.succ_pos n)
  have hsteps : timeBins getcontext b n (binStart t b (-n)) =
      timeBins .exact b n (binStart t b (-n)) := by
    apply timeBins_eq
    intro i hi
    have hnext : binStart t b (-n) + (i + 1) * b = binStart t b ((i + 1 : ℕ) - n) := by
      unfold binStart
      push_cast
      ring
    rw [hnext]
    exact hfits (i + 1) (Nat.succ_lt_succ hi)
  rw [timeBinGen_eq (by omega), hstart, hsteps, timeBins_exact]
  refine congrArg Except.ok (List.map_congr_left fun i _ => ?_)
  unfold binStart
  ring

/-- With an offset the stop time is off by as many buckets. -/
theorem findsBin_iff (hb : 1 ≤ b) (h : ∀ x ∈ findTimeBinValues t k b, Fits 28 (x : ℚ)) :
    FindsBin t k b ↔ k = 0 := by
  have hfound := findTimeBin_eq hb h
  constructor
  · intro hfinds
    have heq := hfound.symm.trans hfinds.bin
    simp only [Except.ok.injEq, Prod.mk.injEq, true_and] at heq
    have hmul : b * (k + 1) = b * 1 := by omega
    have hone := mul_left_cancel₀ (show b ≠ 0 by omega) hmul
    omega
  · rintro rfl
    refine ⟨?_, binStart_succ t b 0, fun _ => ⟨binStart_le hb, lt_binStart hb⟩⟩
    simpa using hfound

end

/-- Where all values have at most 28 digits, `find_time_bin` finds the bin exactly when the offset
is zero, and `time_bin_gen` yields the starts of the last `n` bins. -/
theorem time_bins_iff (t : ℤ) {b : ℤ} (hb : 1 ≤ b) :
    (∀ k : ℤ, (∀ x ∈ findTimeBinValues t k b, Fits 28 (x : ℚ)) → (FindsBin t k b ↔ k = 0)) ∧
    ∀ n : ℕ, (∀ x ∈ timeBinGenValues t n b, Fits 28 (x : ℚ)) →
      timeBinGen getcontext t n b = .ok (lastStarts t n b) ∧
        (lastStarts t n b).Pairwise (· < ·) := by
  refine ⟨?_, ?_⟩
  · intro k h
    exact findsBin_iff hb h
  · intro n h
    exact ⟨timeBinGen_tiles hb h, lastStarts_increasing hb t n⟩

/-- The bins of ten around `25`. -/
theorem three_bins : FindsBin 25 0 10 ∧ timeBinGen getcontext 25 3 10 = .ok [0, 10, 20] :=
  ⟨((time_bins_iff 25 (by decide)).1 0 fun x hx => Decimal.fits_intCast
      (by revert x; decide +kernel)).mpr rfl,
   ((time_bins_iff 25 (by decide)).2 3 fun x hx => Decimal.fits_intCast
      (by revert x; decide +kernel)).1⟩

/-- The bin after the one of `25` starts at `30` and stops at `50`, where `40` is the next start. -/
theorem next_bin_too_long : findTimeBin getcontext 25 1 10 = .ok (30, 50) ∧ binStart 25 10 2 = 40 ∧
    ¬ FindsBin 25 1 10 := by
  have hfits : ∀ x ∈ findTimeBinValues 25 1 10, Fits 28 (x : ℚ) := fun x hx =>
    Decimal.fits_intCast (by revert x; decide +kernel)
  refine ⟨findTimeBin_eq (by decide) hfits, rfl, ?_⟩
  intro h
  have hoffset := (findsBin_iff (by decide) hfits).mp h
  omega

end RaidexNode
end Raidex
