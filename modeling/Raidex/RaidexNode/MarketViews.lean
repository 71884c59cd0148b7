import Raidex.RaidexNode.BookIndex
import Raidex.RaidexNode.GroupedOffers
import Raidex.RaidexNode.PriceChart
import Raidex.RaidexNode.RecentTrades

/-!
# Raidex.RaidexNode.MarketViews

The views of the market that the node gives to its users, and when they raise.

* `groupOffers_returns_iff`, `groupTrades_returns_iff`: the groupings return exactly when every
  price fits the context.
* `BinsMove`: a bucket added to the start of the first bin moves it, in the digits of the context.
  `binsMove_of_le`: up to `10 ^ 26` bins it always does.
* `makePriceBins_returns_iff`: the bins of the chart, for prices that fit.
* `views_return_iff`: when all views return.
-/

namespace Raidex
namespace RaidexNode

open PriceBin

def groupedBuys (book : OfferBook) : Except PyError (List GroupedOffer) :=
  groupOffers Double getcontext book.buys.values none

def groupedSells (book : OfferBook) : Except PyError (List GroupedOffer) :=
  groupOffers Double getcontext book.sells.values none

def groupedTrades (v : TradesView) (fromTimestamp : Option ℤ) :
    Except PyError (List GroupedTrade) :=
  groupTradesFrom Double getcontext v.trades fromTimestamp none none

/-- `interval < 0.` -/
def negativeInterval (interval : Number) : Bool :=
  Number.compare interval (.float (Float.Model.ofInt 0)) == some .lt

def priceChartBins (v : TradesView) (now : ℤ) (nofBuckets : ℤ) (interval : Number) :
    Except PyError (List (PriceBin Double)) :=
  if nofBuckets < 1 ∨ negativeInterval interval then .error .valueError
  else makePriceBins Double getcontext v.trades now nofBuckets.toNat interval

/-! ## Groups -/

/-- Offers are grouped exactly when their prices fit. -/
theorem groupOffers_returns_iff {offers : List OfferBookEntry} :
    (∃ gs, groupOffers Double getcontext offers none = .ok gs) ↔
      ∀ e ∈ offers, PriceFits priceGroupPrecision e.offer := by
  constructor
  · rintro ⟨gs, hgs⟩ e he
    obtain ⟨groups, hloop, -⟩ := Except.bind_eq_ok.mp hgs
    obtain ⟨groups', groups'', hstep⟩ := Except.step_of_foldlM hloop e he
    obtain ⟨q, hq, -⟩ := Except.bind_eq_ok.mp hstep
    exact quantizedPrice_ok_iff.mp ⟨q, hq⟩
  · intro h
    choose! price hprice hfits using h
    exact ⟨_, groupOffers_eq fun e he => quantizedPrice_ok (hprice e he) (hfits e he)⟩

theorem findTimeBin_ok (ctx : Decimal.Context) {interval : ℤ} (h : interval ≠ 0) (t : ℤ) :
    ∃ bin, findTimeBin ctx t 0 interval = .ok bin := by
  unfold findTimeBin
  simp only [decimalDiv, if_neg (Int.cast_ne_zero.mpr h : (interval : ℚ) ≠ 0)]
  exact ⟨_, rfl⟩

/-- Trades are grouped exactly when their prices fit. -/
theorem groupTrades_returns_iff {trades : List Trade} :
    (∃ gs, groupTrades Double getcontext trades none none none = .ok gs) ↔
      ∀ t ∈ trades, PriceFits priceGroupPrecision t.offer := by
  constructor
  · rintro ⟨gs, hgs⟩ t ht
    obtain ⟨groups, hloop, -⟩ := Except.bind_eq_ok.mp hgs
    obtain ⟨bucket, hbucket⟩ := buckets_of_groupTradesLoop hloop t ht
    obtain ⟨q, hq, -⟩ := Except.bind_eq_ok.mp hbucket
    exact quantizedPrice_ok_iff.mp ⟨q, hq⟩
  · intro h
    have hbuckets : ∀ t ∈ trades, ∃ bucket, tradeBucket Double getcontext priceGroupPrecision
        timeGroupIntervalMs t = .ok bucket := by
      intro t ht
      obtain ⟨q, hq⟩ := quantizedPrice_ok_iff.mpr (h t ht)
      obtain ⟨bin, hbin⟩ := findTimeBin_ok getcontext
        (show timeGroupIntervalMs ≠ 0 by decide) t.timestamp
      exact ⟨(q, bin.1), Except.bind_eq_ok.mpr ⟨q, hq, Except.bind_eq_ok.mpr ⟨bin, hbin, rfl⟩⟩⟩
    choose! bucket hbucket using hbuckets
    exact ⟨_, groupTrades_eq hbucket⟩

/-- The trades are grouped from every time on exactly when their prices fit. -/
theorem groupedTrades_return_iff {v : TradesView} :
    (∀ fromTimestamp, ∃ gs, groupedTrades v fromTimestamp = .ok gs) ↔
      ∀ t ∈ v.values, PriceFits priceGroupPrecision t.offer := by
  constructor
  · intro h
    rw [← TradesView.trades_none]
    exact groupTrades_returns_iff.mp (h none)
  · intro h fromTimestamp
    have hgroups (fromTime : Option ℤ) :
        ∃ gs, groupTrades Double getcontext (v.trades fromTime none) none none none = .ok gs :=
      groupTrades_returns_iff.mpr fun t ht => h t (TradesView.trades_subset ht)
    cases fromTimestamp with
    | none => exact hgroups none
    | some t =>
      obtain ⟨bin, hbin⟩ := findTimeBin_ok getcontext (show timeGroupIntervalMs ≠ 0 by decide) t
      obtain ⟨gs, hgs⟩ := hgroups (some bin.1)
      refine ⟨gs, Except.bind_eq_ok.mpr ⟨some bin.1, ?_, hgs⟩⟩
      simp only [Option.getD_none, Option.mapM_some, hbin]
      rfl

/-! ## Starts of the bins -/

section

variable (ctx : Decimal.Context)

/-- The time at which the loop of `time_bin_gen` starts. -/
def genStart (now : ℤ) (n : ℕ) (b : ℤ) : ℚ :=
  ctx.round (ctx.round (⌊ctx.round ((now : ℚ) / b)⌋ * b) + ctx.round (b * (-n : ℤ)))

/-- The first and the second start that the bins are counted back from. -/
def fromStart (now b : ℤ) : ℤ := truncate (ctx.round (genStart ctx now 2 b + b))

def toStart (now b : ℤ) : ℤ :=
  truncate (ctx.round (ctx.round (genStart ctx now 2 b + b) + b))

/-- The time at which the generator of the first ends starts. -/
def chartStart (now : ℤ) (n : ℕ) (b : ℤ) : ℚ := genStart ctx (fromStart ctx now b) (n + 1) b

variable {ctx} {now b : ℤ} {n : ℕ}

theorem timeBinGen_eq (hb : b ≠ 0) (now : ℤ) (n : ℕ) :
    timeBinGen ctx now n b = .ok (timeBins ctx b n (genStart ctx now n b)) := by
  unfold timeBinGen
  simp only [decimalDiv, if_neg (Int.cast_ne_zero.mpr hb : (b : ℚ) ≠ 0)]
  rfl

theorem timeBinGen_zero (now : ℤ) (n : ℕ) (times : List ℤ) :
    timeBinGen ctx now n 0 ≠ .ok times := by
  intro h
  obtain ⟨bin, hbin, -⟩ := Except.bind_eq_ok.mp h
  rw [decimalDiv, if_pos Int.cast_zero] at hbin
  split at hbin <;> cases hbin

theorem length_timeBins (bucketSize : ℚ) (n : ℕ) (s : ℚ) :
    (timeBins ctx bucketSize n s).length = n := by
  induction n generalizing s with
  | zero => rfl
  | succ n ih => rw [timeBins, List.length_cons, ih]

theorem binRanges_eq (hb : b ≠ 0) : binRanges ctx now n b =
    .ok ((timeBins ctx b (n + 1) (chartStart ctx now n b)).zip
      (timeBins ctx b (n + 1) (genStart ctx (toStart ctx now b) (n + 1) b))) := by
  unfold binRanges
  rw [timeBinGen_eq hb]
  show (do
    return (← timeBinGen ctx (fromStart ctx now b) (n + 1) b).zip
      (← timeBinGen ctx (toStart ctx now b) (n + 1) b)) = _
  rw [timeBinGen_eq hb, timeBinGen_eq hb]
  rfl

theorem ne_zero_of_binRanges {times : List (ℤ × ℤ)} (h : binRanges ctx now n b = .ok times) :
    b ≠ 0 := by
  rintro rfl
  obtain ⟨starts, hstarts, -⟩ := Except.bind_eq_ok.mp h
  exact timeBinGen_zero now 2 starts hstarts

end

/-- A bucket added to the start of the first bin gives a later time, in 28 digits. -/
def BinsMove (now : ℤ) (n : ℕ) (b : ℤ) : Prop :=
  getcontext.round (chartStart getcontext now n b + b) ≠ chartStart getcontext now n b

section

variable {s now b : ℤ} {n : ℕ} {x : ℚ}

open Decimal (Fits roundFloor)

theorem round_intCast (m : ℤ) : ∃ m' : ℤ, getcontext.round (m : ℚ) = m' ∧ Fits 28 (m' : ℚ) := by
  obtain ⟨m', hm'⟩ := Decimal.roundFloor_intCast 28 m
  exact ⟨m', hm', hm' ▸ Decimal.fits_roundFloor⟩

/-- The starts are whole milliseconds. -/
theorem genStart_intCast (now : ℤ) (n : ℕ) (b : ℤ) :
    ∃ s : ℤ, genStart getcontext now n b = s ∧ Fits 28 (s : ℚ) := by
  obtain ⟨stop, hstop, -⟩ := round_intCast (⌊getcontext.round ((now : ℚ) / b)⌋ * b)
  obtain ⟨back, hback, -⟩ := round_intCast (b * (-n : ℤ))
  obtain ⟨s, hs, hfits⟩ := round_intCast (stop + back)
  refine ⟨s, ?_, hfits⟩
  push_cast at hstop hback hs
  rw [genStart]
  push_cast
  rw [hstop, hback, hs]

theorem round_le : getcontext.round x ≤ x := Decimal.roundFloor_le

/-- Before the step times that are not negative are exact. -/
theorem lt_round_of_nonneg (hs : 0 ≤ s) (hb : 0 < b) (hbound : s + b ≤ 10 ^ 28) :
    (s : ℚ) < getcontext.round (s + b) := by
  have hfits : Fits 28 ((s + b : ℤ) : ℚ) := by
    refine Decimal.fits_intCast ?_
    rw [abs_of_nonneg (by omega)]
    exact hbound
  have hexact : getcontext.round ((s : ℚ) + b) = s + b := by
    rw [← Int.cast_add]
    exact Decimal.roundFloor_of_fits (by norm_num) hfits
  rw [hexact]
  have hpos : (0 : ℚ) < b := Int.cast_pos.mpr hb
  linarith

/-- Once a bucket moves the start it moves every time after it. -/
theorem timeBins_increasing (hfits : Fits 28 (s : ℚ)) (hb : 0 < b)
    (hmove : (s : ℚ) < getcontext.round (s + b)) (hbound : s + n * b ≤ 10 ^ 28) :
    (timeBins getcontext b n s).Pairwise (· < ·) ∧ ∀ t ∈ timeBins getcontext b n s, s < t := by
  induction n generalizing s with
  | zero => exact ⟨.nil, fun t ht => absurd ht List.not_mem_nil⟩
  | succ n ih =>
    obtain ⟨t, ht, htfits⟩ := round_intCast (s + b)
    rw [Int.cast_add] at ht
    have hle : t ≤ s + b := by
      have hround : getcontext.round ((s : ℚ) + b) ≤ s + b := round_le
      rw [ht] at hround
      exact_mod_cast hround
    rw [ht] at hmove
    have hlt : s < t := by exact_mod_cast hmove
    rw [timeBins, ht, truncate_intCast, List.pairwise_cons, List.forall_mem_cons]
    cases n with
    | zero =>
      exact ⟨⟨fun t' ht' => absurd ht' List.not_mem_nil, .nil⟩, hlt,
        fun t' ht' => absurd ht' List.not_mem_nil⟩
    | succ n =>
      have hrest : t + (n + 1 : ℕ) * b ≤ 10 ^ 28 := by
        have hsplit : s + (n + 1 + 1 : ℕ) * b = s + b + (n + 1 : ℕ) * b := by push_cast; ring
        omega
      have hagain : (t : ℚ) < getcontext.round (t + b) := by
        rcases lt_or_ge t 0 with hneg | hnonneg
        · have hround : roundFloor 28 ((s : ℚ) + b) = t := ht
          have hstep : roundFloor 28 ((s : ℚ) + b) <
              roundFloor 28 (roundFloor 28 ((s : ℚ) + b) + b) := by
            refine Decimal.lt_roundFloor_again (by norm_num) hfits ?_ ?_
            · rwa [hround]
            · rw [hround]
              exact_mod_cast hneg
          rwa [hround] at hstep
        · refine lt_round_of_nonneg hnonneg hb ?_
          have hmul : b ≤ (n + 1 : ℕ) * b := le_mul_of_one_le_left hb.le (by push_cast; omega)
          omega
      obtain ⟨hpairwise, hafter⟩ := ih htfits hagain hrest
      exact ⟨⟨hafter, hpairwise⟩, hlt, fun t' ht' => hlt.trans (hafter t' ht')⟩

/-- Rounding down never holds up a step back. -/
theorem timeBins_decreasing (hb : b < 0) (n : ℕ) (s : ℤ) :
    (timeBins getcontext b n s).Pairwise (· > ·) ∧ ∀ t ∈ timeBins getcontext b n s, t < s := by
  induction n generalizing s with
  | zero => exact ⟨.nil, fun t ht => absurd ht List.not_mem_nil⟩
  | succ n ih =>
    obtain ⟨t, ht, -⟩ := round_intCast (s + b)
    rw [Int.cast_add] at ht
    have hlt : t < s := by
      have hround : getcontext.round ((s : ℚ) + b) ≤ s + b := round_le
      rw [ht] at hround
      have hle : t ≤ s + b := by exact_mod_cast hround
      omega
    obtain ⟨hpairwise, hafter⟩ := ih t
    rw [timeBins, ht, truncate_intCast, List.pairwise_cons, List.forall_mem_cons]
    exact ⟨⟨hafter, hpairwise⟩, hlt, fun t' ht' => (hafter t' ht').trans hlt⟩

/-- A start that a bucket does not move is the start of all bins. -/
theorem timeBins_stuck (h : getcontext.round ((s : ℚ) + b) = s) (n : ℕ) :
    timeBins getcontext b n s = List.replicate n s := by
  induction n with
  | zero => rfl
  | succ n ih => rw [timeBins, h, ih, truncate_intCast, List.replicate_succ]

/-- The bins end before the time that they are counted back from. -/
theorem genStart_le (hb : 0 < b) (now : ℤ) (n : ℕ) :
    genStart getcontext now n b + n * b ≤ now := by
  have hpos : (0 : ℚ) < b := Int.cast_pos.mpr hb
  have hfloor : (⌊getcontext.round ((now : ℚ) / b)⌋ : ℚ) * b ≤ now := by
    rw [← le_div_iff₀ hpos]
    exact (Int.floor_le _).trans round_le
  have hstop := (round_le (x := ⌊getcontext.round ((now : ℚ) / b)⌋ * b)).trans hfloor
  have hback : getcontext.round (b * (-n : ℤ) : ℚ) ≤ -(n * b) := by
    refine round_le.trans (le_of_eq ?_)
    push_cast
    ring
  have hstart : genStart getcontext now n b ≤ _ := round_le
  linarith

theorem chartStart_le (hb : 0 < b) (now : ℤ) (n : ℕ) :
    chartStart getcontext now n b + (n + 1) * b ≤ now := by
  have hpos : (0 : ℚ) < b := Int.cast_pos.mpr hb
  obtain ⟨s, hs, -⟩ := genStart_intCast now 2 b
  obtain ⟨t, ht, -⟩ := round_intCast (s + b)
  rw [Int.cast_add, ← hs] at ht
  have hfrom : fromStart getcontext now b = t := by rw [fromStart, ht, truncate_intCast]
  have hfirst := genStart_le hb now 2
  have hround : getcontext.round (genStart getcontext now 2 b + b) ≤ _ := round_le
  have hlast := genStart_le hb (fromStart getcontext now b) (n + 1)
  rw [chartStart]
  rw [hfrom] at hlast ⊢
  rw [ht] at hround
  push_cast at hfirst hlast
  linarith

/-- Rounding at most doubles what a number is below zero. -/
theorem neg_le_round {c : ℚ} (hc : 0 ≤ c) (h : -c ≤ x) : -(2 * c) ≤ getcontext.round x := by
  have herror : x - |x| ≤ getcontext.round x := Decimal.sub_abs_le_roundFloor (by norm_num)
  rcases le_total 0 x with hx | hx
  · rw [abs_of_nonneg hx] at herror
    linarith
  · rw [abs_of_nonpos hx] at herror
    linarith

theorem neg_le_genStart (hb : 0 < b) {k : ℕ} (hk : -(k * b) ≤ now) (n : ℕ) :
    -((8 * k + 4 * n) * b : ℚ) ≤ genStart getcontext now n b := by
  have hpos : (0 : ℚ) < b := Int.cast_pos.mpr hb
  have hknonneg : (0 : ℚ) ≤ k := Nat.cast_nonneg k
  have hnnonneg : (0 : ℚ) ≤ n := Nat.cast_nonneg n
  have hdiv : -(k : ℚ) ≤ (now : ℚ) / b := by
    rw [le_div_iff₀ hpos, neg_mul]
    exact_mod_cast hk
  have hbin : -(2 * k : ℤ) ≤ ⌊getcontext.round ((now : ℚ) / b)⌋ := by
    refine Int.le_floor.mpr ?_
    push_cast
    exact neg_le_round hknonneg hdiv
  have hstop : -(2 * (2 * k * b) : ℚ) ≤
      getcontext.round (⌊getcontext.round ((now : ℚ) / b)⌋ * b) := by
    refine neg_le_round (mul_nonneg (by linarith) hpos.le) ?_
    have hcast : -(2 * k : ℚ) ≤ ⌊getcontext.round ((now : ℚ) / b)⌋ := by exact_mod_cast hbin
    rw [← neg_mul]
    exact mul_le_mul_of_nonneg_right hcast hpos.le
  have hback : -(2 * (n * b) : ℚ) ≤ getcontext.round (b * (-n : ℤ)) := by
    refine neg_le_round (mul_nonneg hnnonneg hpos.le) (le_of_eq ?_)
    push_cast
    ring
  have hsum : -((4 * k + 2 * n) * b : ℚ) ≤
      getcontext.round (⌊getcontext.round ((now : ℚ) / b)⌋ * b) +
        getcontext.round (b * (-n : ℤ)) := by
    linarith
  have hround := neg_le_round (mul_nonneg (by linarith) hpos.le) hsum
  rw [genStart]
  linarith

/-- Up to `10 ^ 26` bins a bucket is at least a unit in the last digit of the first start. -/
theorem binsMove_of_le (hnonneg : 0 ≤ now) (hnow : now ≤ 10 ^ 28) (hb : 0 < b)
    (hn : n ≤ 10 ^ 26) : BinsMove now n b := by
  have hpos : (0 : ℚ) < b := Int.cast_pos.mpr hb
  have hfrom : -((14 : ℕ) * b) ≤ fromStart getcontext now b := by
    obtain ⟨s, hs, -⟩ := genStart_intCast now 2 b
    obtain ⟨t, ht, -⟩ := round_intCast (s + b)
    rw [Int.cast_add, ← hs] at ht
    rw [fromStart, ht, truncate_intCast]
    have hstart := neg_le_genStart hb (k := 0) (by simpa using hnonneg) 2
    have hround : -(2 * (7 * b) : ℚ) ≤ getcontext.round (genStart getcontext now 2 b + b) := by
      refine neg_le_round (by linarith) ?_
      push_cast at hstart
      linarith
    rw [ht] at hround
    have hcast : -((14 : ℕ) * b : ℚ) ≤ t := by
      push_cast
      linarith
    exact_mod_cast hcast
  have hlow := neg_le_genStart hb hfrom (n + 1)
  have hhigh := chartStart_le hb now n
  obtain ⟨s, hs, hfits⟩ := genStart_intCast (fromStart getcontext now b) (n + 1) b
  have hs : chartStart getcontext now n b = s := hs
  have hlow : -((8 * (14 : ℕ) + 4 * (n + 1 : ℕ)) * b : ℚ) ≤ s := hs ▸ hlow
  rw [hs] at hhigh
  rw [BinsMove, hs]
  refine ne_of_gt ?_
  have hmul : (0 : ℚ) ≤ n * b := mul_nonneg (Nat.cast_nonneg n) hpos.le
  rcases lt_or_ge s 0 with hneg | hs0
  · have hbound : -(s : ℚ) ≤ 10 ^ 27 * b := by
      have hcoeff : (8 * (14 : ℕ) + 4 * (n + 1 : ℕ) : ℚ) ≤ 10 ^ 27 := by
        have hn' : (n : ℚ) ≤ 10 ^ 26 := by exact_mod_cast hn
        push_cast
        linarith
      have hle := mul_le_mul_of_nonneg_right hcoeff hpos.le
      linarith
    have hne : (s : ℚ) ≠ 0 := Int.cast_ne_zero.mpr hneg.ne
    have hulp : 10 ^ (28 - 1) * Decimal.ulp 28 (s : ℚ) ≤ |(s : ℚ)| :=
      Decimal.ulp_le_abs (by norm_num) hne
    rw [abs_of_neg (Int.cast_lt_zero.mpr hneg)] at hulp
    have hle : Decimal.ulp 28 (s : ℚ) ≤ b := by
      have hten : (0 : ℚ) < 10 ^ 27 := by positivity
      exact le_of_mul_le_mul_left (hulp.trans hbound) hten
    exact Decimal.lt_roundFloor_of_ulp (by norm_num) hfits (by linarith)
  · refine lt_round_of_nonneg hs0 hb ?_
    have hsum : (s : ℚ) + b ≤ 10 ^ 28 := by
      have hcast : (now : ℚ) ≤ 10 ^ 28 := by exact_mod_cast hnow
      linarith
    exact_mod_cast hsum

end

/-! ## The chart -/

theorem binsMove_of_neg {now b : ℤ} {n : ℕ} (hb : b < 0) : BinsMove now n b := by
  intro h
  have hle : getcontext.round (chartStart getcontext now n b + b) ≤ _ := round_le
  have hneg : (b : ℚ) < 0 := Int.cast_lt_zero.mpr hb
  linarith

/-- Where a bucket moves the first start, no two bins have one timestamp. -/
theorem nodup_timeBins {now b : ℤ} {n : ℕ} (hnow : now ≤ 10 ^ 28) (hb : b ≠ 0)
    (hmove : BinsMove now n b) :
    (timeBins getcontext b (n + 1) (chartStart getcontext now n b)).Nodup := by
  obtain ⟨s, hs, hfits⟩ := genStart_intCast (fromStart getcontext now b) (n + 1) b
  have hs : chartStart getcontext now n b = s := hs
  rcases hb.lt_or_gt with hneg | hpos
  · rw [hs]
    exact (timeBins_decreasing hneg _ s).1.imp fun h => h.ne'
  · have hbound := chartStart_le hpos now n
    unfold BinsMove at hmove
    rw [hs] at hbound hmove ⊢
    have hsum : s + (n + 1 : ℕ) * b ≤ now := by exact_mod_cast hbound
    have hle : (s : ℚ) ≤ getcontext.round (s + b) :=
      Decimal.le_roundFloor (by norm_num) hfits
        (le_add_of_nonneg_right (Int.cast_nonneg hpos.le))
    refine (timeBins_increasing hfits hpos (lt_of_le_of_ne hle hmove.symm) ?_).1.imp fun h => h.ne
    exact hsum.trans hnow

/-- Bins with one timestamp replace each other. -/
theorem length_foldl_setBin {F : Type} {s : ℤ} {filled : List (PriceBin F)}
    (bins : List (PriceBin F)) (h : ∀ bin ∈ bins ++ filled, bin.timestamp = s)
    (hbins : bins.length ≤ 1) : (filled.foldl (setBin F) bins).length ≤ 1 := by
  induction filled generalizing bins with
  | nil => exact hbins
  | cons bin filled ih =>
    have hbin : bin.timestamp = s := h bin (List.mem_append_right _ List.mem_cons_self)
    have hset : (setBin F bins bin).length ≤ 1 ∧ ∀ b ∈ setBin F bins bin, b.timestamp = s := by
      unfold setBin
      split
      · refine ⟨by rwa [List.length_map], ?_⟩
        intro b hb
        obtain ⟨b', hb', rfl⟩ := List.mem_map.mp hb
        split
        · exact hbin
        · exact h b' (List.mem_append_left _ hb')
      next hnew =>
        have hnil : bins = [] := by
          refine List.eq_nil_iff_forall_not_mem.mpr fun b hb => hnew ?_
          refine List.any_eq_true.mpr ⟨b, hb, decide_eq_true ?_⟩
          rw [hbin, h b (List.mem_append_left _ hb)]
        rw [hnil]
        exact ⟨le_rfl, List.forall_mem_singleton.mpr hbin⟩
    refine ih _ (fun b hb => ?_) hset.1
    rcases List.mem_append.mp hb with hb | hb
    · exact hset.2 b hb
    · exact h b (List.mem_append_right _ (List.mem_cons_of_mem _ hb))

/-- The chart of trades with prices that fit returns exactly when the interval gives a bucket that
is not empty and moves the first bin. -/
theorem makePriceBins_returns_iff {v : TradesView} {now : ℤ} (hnow : now ≤ 10 ^ 28) {n : ℕ}
    (hn : 1 ≤ n) {interval : Number}
    (hfits : ∀ t ∈ v.values, PriceFits priceGroupPrecision t.offer) :
    (∃ bins, makePriceBins Double getcontext v.trades now n interval = .ok bins) ↔
      ∃ b, timeGroupInterval interval = .ok b ∧ b ≠ 0 ∧ BinsMove now n b := by
  have hprices : ∀ t ∈ v.values,
      ∃ q, quantizedPrice getcontext Double priceGroupPrecision t.offer = .ok q :=
    fun t ht => quantizedPrice_ok_iff.mpr (hfits t ht)
  choose! price hprice using hprices
  have hfilled (times : List (ℤ × ℤ)) : ∃ filled,
      fillBins Double getcontext v.trades times [] (Floats.ofDecimal 0) =
        .ok (filled.foldl (setBin Double) []) ∧
      Filled getcontext v.trades price (Floats.ofDecimal 0) times filled :=
    fillBins_filled (fun x _ t ht => hprice t (TradesView.trades_subset ht)) [] _
  have hfst {b : ℤ} : ((timeBins getcontext b (n + 1) (chartStart getcontext now n b)).zip
      (timeBins getcontext b (n + 1)
        (genStart getcontext (toStart getcontext now b) (n + 1) b))).map Prod.fst =
      timeBins getcontext b (n + 1) (chartStart getcontext now n b) := by
    refine List.map_fst_zip (le_of_eq ?_)
    rw [length_timeBins, length_timeBins]
  constructor
  · rintro ⟨bins, hbins⟩
    obtain ⟨b, hb, times, htimes, filled, hfill, hfirst⟩ := makePriceBins_eq_ok.mp hbins
    have hne := ne_zero_of_binRanges htimes
    refine ⟨b, hb, hne, ?_⟩
    intro hstuck
    rw [binRanges_eq hne] at htimes
    obtain rfl := Except.ok.inj htimes
    obtain ⟨filled', hfill', hbins'⟩ := hfilled ((timeBins getcontext b (n + 1)
      (chartStart getcontext now n b)).zip (timeBins getcontext b (n + 1)
        (genStart getcontext (toStart getcontext now b) (n + 1) b)))
    rw [hfill] at hfill'
    obtain rfl := Except.ok.inj hfill'
    obtain ⟨s, hs, -⟩ := genStart_intCast (fromStart getcontext now b) (n + 1) b
    have hs : chartStart getcontext now n b = s := hs
    have htimestamps := hbins'.timestamps
    rw [hs] at hstuck
    rw [hfst, hs, timeBins_stuck hstuck] at htimestamps
    have hsame : ∀ bin ∈ [] ++ filled', bin.timestamp = s := fun bin hbin =>
      List.eq_of_mem_replicate (htimestamps ▸ List.mem_map_of_mem hbin)
    have hlen := length_foldl_setBin [] hsame (Nat.zero_le 1)
    unfold withoutFirst at hfirst
    split at hfirst
    · omega
    · cases hfirst
  · rintro ⟨b, hb, hne, hmove⟩
    obtain ⟨filled, hfill, hbins⟩ := hfilled ((timeBins getcontext b (n + 1)
      (chartStart getcontext now n b)).zip (timeBins getcontext b (n + 1)
        (genStart getcontext (toStart getcontext now b) (n + 1) b)))
    have htimestamps := hbins.timestamps
    rw [hfst] at htimestamps
    have hlen := congrArg List.length htimestamps
    rw [List.length_map, length_timeBins] at hlen
    rw [foldl_setBin [] (by rw [List.nil_append, htimestamps]; exact nodup_timeBins hnow hne hmove),
      List.nil_append] at hfill
    exact ⟨_, makePriceBins_eq_ok.mpr ⟨b, hb, _, binRanges_eq hne, filled, hfill, if_pos hlen⟩⟩

/-! ## All views -/

def ViewsReturn (book : OfferBook) (v : TradesView) (now n : ℤ) (interval : Number) : Prop :=
  (∃ gs, groupedBuys book = .ok gs) ∧ (∃ gs, groupedSells book = .ok gs) ∧
    (∀ fromTimestamp, ∃ gs, groupedTrades v fromTimestamp = .ok gs) ∧
    ∃ bins, priceChartBins v now n interval = .ok bins

/-- The views that the guard of the chart admits return exactly when all prices fit 28 digits, the
interval is a number of milliseconds other than zero, and a bucket of this size moves the first
bin. Up to `10 ^ 26` bins it always does. -/
theorem views_return_iff (book : OfferBook) (v : TradesView) (now : ℕ) (hnow : now ≤ 10 ^ 28)
    (n : ℤ) (hn : 1 ≤ n) (interval : Number) (hinterval : negativeInterval interval = false) :
    (ViewsReturn book v now n interval ↔
      (∀ e ∈ book.values, PriceFits priceGroupPrecision e.offer) ∧
      (∀ t ∈ v.values, PriceFits priceGroupPrecision t.offer) ∧
      ∃ b, timeGroupInterval interval = .ok b ∧ b ≠ 0 ∧ BinsMove now n.toNat b) ∧
    ∀ b, b ≠ 0 → n ≤ 10 ^ 26 → BinsMove now n.toNat b := by
  have hnow' : (now : ℤ) ≤ 10 ^ 28 := by exact_mod_cast hnow
  have hguard : priceChartBins v now n interval =
      makePriceBins Double getcontext v.trades now n.toNat interval := by
    refine if_neg ?_
    rw [hinterval]
    rintro (hlt | hneg)
    · omega
    · cases hneg
  refine ⟨?_, ?_⟩
  · unfold ViewsReturn groupedBuys groupedSells
    rw [groupOffers_returns_iff, groupOffers_returns_iff, groupedTrades_return_iff, hguard,
      OfferBook.values, List.forall_mem_append, and_assoc]
    refine and_congr_right fun _ => and_congr_right fun _ => and_congr_right fun hfits => ?_
    exact makePriceBins_returns_iff hnow' (by omega) hfits
  · intro b hb hle
    rcases hb.lt_or_gt with hneg | hpos
    · exact binsMove_of_neg hneg
    · exact binsMove_of_le (Int.natCast_nonneg now) hnow' hpos (by omega)

/-- The views of a market with an offer and a trade, with bins of a second. -/
theorem small_market_viewed : ∃ o : BasicOffer ℕ,
    ViewsReturn (.run [.insert (bookEntry 8 10 20 100)])
      (.run [.addPending (.offer o), .reportCompleted 7 4500]) (5000 : ℕ) 2 (.int 1) := by
  let o : BasicOffer ℕ :=
    { offerId := 7, type := .buy, baseAmount := 10, quoteAmount := 20, timeoutDate := 100 }
  refine ⟨o, ?_⟩
  have hviews := views_return_iff (.run [.insert (bookEntry 8 10 20 100)])
    (.run [.addPending (.offer o), .reportCompleted 7 4500]) 5000 (by norm_num) 2 (by decide)
    (.int 1) (by decide +kernel)
  have hbook : (OfferBook.run [.insert (bookEntry 8 10 20 100)]).values =
      [bookEntry 8 10 20 100] := rfl
  have htrades : (TradesView.run [.addPending (.offer o), .reportCompleted 7 4500]).values =
      [⟨o, 4500⟩] := by decide +kernel
  refine hviews.1.mpr ⟨?_, ?_, 1000, by decide +kernel, by decide,
    hviews.2 1000 (by decide) (by norm_num)⟩
  · rw [hbook]
    exact List.forall_mem_singleton.mpr (quantizedPrice_ok_iff.mp ⟨2, by decide +kernel⟩)
  · rw [htrades]
    exact List.forall_mem_singleton.mpr (quantizedPrice_ok_iff.mp ⟨2, by decide +kernel⟩)

/-- The price of an accepted offer has too many digits, and an interval without a length divides by
zero. -/
theorem huge_price_raises :
    (∃ book, OfferBook.empty.insertOffer (bookEntry 7 1 (10 ^ 28) 100) = .ok book ∧
      groupedBuys book = .error .invalidOperation) ∧
    negativeInterval (.int 0) = false ∧
    priceChartBins .empty 5000 1 (.int 0) = .error .zeroDivisionError := by
  have hzero : timeGroupInterval (.int 0) = .ok 0 := by decide +kernel
  have hguard : ¬ ((1 : ℤ) < 1 ∨ negativeInterval (.int 0)) := by decide +kernel
  refine ⟨⟨_, rfl, by decide +kernel⟩, by decide +kernel, ?_⟩
  rw [priceChartBins, if_neg hguard, makePriceBins, hzero]
  rfl

end RaidexNode
end Raidex
