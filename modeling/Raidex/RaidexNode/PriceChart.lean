import Raidex.RaidexNode.PriceBins

/-!
# Raidex.RaidexNode.PriceChart

The bins of the price chart over the trades of the node.

* `fillBins_filled`: the loop fills one bin for each range; `Filled` says how the bins follow from
  each other.
* `timeBinGen_exact`: the starts of the bins, in exact arithmetic.
* `price_bins_partition`: the bins of the chart partition the trades of their range.
-/

namespace Raidex
namespace RaidexNode

open PriceBin

/-! ## The loop -/

section

variable {F : Type} [Floats F] {ctx : Decimal.Context}
  {gen : Option ℤ → Option ℤ → List Trade} {price : Trade → ℚ}

theorem PriceBin.closePrice_ok (ctx : Decimal.Context) (b : PriceBin F) :
    ∃ c, b.closePrice ctx = .ok c := by
  unfold PriceBin.closePrice
  split
  · exact ⟨_, rfl⟩
  next t ht =>
    have hne : b.closePrices ≠ [] := by
      intro hnil
      rw [b.closed.mpr hnil] at ht
      cases ht
    have hlen : (b.closePrices.length : ℚ) ≠ 0 :=
      Nat.cast_ne_zero.mpr (List.length_pos_of_ne_nil hne).ne'
    rw [closePriceDecimal, decimalDiv, if_neg hlen]
    exact ⟨_, rfl⟩

def pricedTrade (price : Trade → ℚ) (t : Trade) : PricedTrade :=
  ⟨t.timestamp, t.offer.baseAmount, price t⟩

theorem addTrades_ok {trades : List Trade}
    (h : ∀ t ∈ trades, quantizedPrice ctx F priceGroupPrecision t.offer = .ok (price t))
    (b : PriceBin F) :
    addTrades F ctx b trades = .ok (b.addAll (trades.map (pricedTrade price))) := by
  rw [addAll, List.foldl_map]
  refine Except.foldlM_ok (fun bin t ht => ?_) b
  rw [h t ht]
  rfl

/-- The bins that the loop fills: each opens at the close price of the one before. -/
inductive Filled (ctx : Decimal.Context) (gen : Option ℤ → Option ℤ → List Trade)
    (price : Trade → ℚ) : F → List (ℤ × ℤ) → List (PriceBin F) → Prop where
  | nil (lastClosePrice : F) : Filled ctx gen price lastClosePrice [] []
  | cons {lastClosePrice close : F} {fromTime toTime : ℤ} {times : List (ℤ × ℤ)}
      {bin : PriceBin F} {bins : List (PriceBin F)} :
      Records lastClosePrice fromTime
        ((gen (some fromTime) (some toTime)).map (pricedTrade price)) bin →
      bin.closePrice ctx = .ok close → Filled ctx gen price close times bins →
      Filled ctx gen price lastClosePrice ((fromTime, toTime) :: times) (bin :: bins)

theorem fillBins_filled {times : List (ℤ × ℤ)}
    (h : ∀ x ∈ times, ∀ t ∈ gen (some x.1) (some x.2),
      quantizedPrice ctx F priceGroupPrecision t.offer = .ok (price t))
    (bins : List (PriceBin F)) (lastClosePrice : F) :
    ∃ filled, fillBins F ctx gen times bins lastClosePrice = .ok (filled.foldl (setBin F) bins) ∧
      Filled ctx gen price lastClosePrice times filled := by
  induction times generalizing bins lastClosePrice with
  | nil => exact ⟨[], rfl, .nil _⟩
  | cons x times ih =>
    obtain ⟨fromTime, toTime⟩ := x
    have hbin := addTrades_ok (h _ List.mem_cons_self) (PriceBin.new lastClosePrice fromTime)
    obtain ⟨close, hclose⟩ := PriceBin.closePrice_ok ctx
      ((PriceBin.new lastClosePrice fromTime).addAll
        ((gen (some fromTime) (some toTime)).map (pricedTrade price)))
    obtain ⟨filled, hfilled, hrest⟩ := ih (fun x hx => h x (List.mem_cons_of_mem _ hx))
      (setBin F bins ((PriceBin.new lastClosePrice fromTime).addAll
        ((gen (some fromTime) (some toTime)).map (pricedTrade price)))) close
    refine ⟨_ :: filled, ?_, .cons (records_addAll ..) hclose hrest⟩
    rw [fillBins, hbin]
    show (do fillBins F ctx gen times _ (← PriceBin.closePrice ctx _)) = _
    rw [hclose]
    exact hfilled

namespace Filled

variable {lastClosePrice : F} {times : List (ℤ × ℤ)} {bins : List (PriceBin F)}

theorem timestamps (h : Filled ctx gen price lastClosePrice times bins) :
    bins.map (fun bin => bin.timestamp) = times.map Prod.fst := by
  induction h with
  | nil => rfl
  | cons hrecords _ _ ih => rw [List.map_cons, List.map_cons, ih, hrecords.timestamp]

theorem amounts (h : Filled ctx gen price lastClosePrice times bins) :
    bins.map (fun bin => bin.amount) = times.map fun x =>
      ((gen (some x.1) (some x.2)).map fun t => t.offer.baseAmount).sum := by
  induction h with
  | nil => rfl
  | cons hrecords _ _ ih =>
    rw [List.map_cons, List.map_cons, ih, hrecords.amount, List.map_map]
    rfl

/-- A bin has the trades of its range, and closes at its open price where there are none. -/
theorem mem (h : Filled ctx gen price lastClosePrice times bins) {bin : PriceBin F}
    (hbin : bin ∈ bins) : ∃ x ∈ times, bin.timestamp = x.1 ∧
      bin.amount = ((gen (some x.1) (some x.2)).map fun t => t.offer.baseAmount).sum ∧
      (gen (some x.1) (some x.2) = [] → bin.closePrice ctx = .ok bin.openPrice) := by
  induction h with
  | nil => cases hbin
  | @cons _ _ fromTime toTime _ bin' _ hrecords _ _ ih =>
    rcases List.mem_cons.mp hbin with rfl | hbin
    · refine ⟨_, List.mem_cons_self, hrecords.timestamp, ?_, ?_⟩
      · rw [hrecords.amount, List.map_map]
        rfl
      · intro hnil
        have hclose := hrecords.closeTimestamp
        rw [hnil] at hclose
        unfold PriceBin.closePrice
        rw [hclose]
        rfl
    · obtain ⟨x, hx, hsame⟩ := ih hbin
      exact ⟨x, List.mem_cons_of_mem _ hx, hsame⟩

theorem chain (h : Filled ctx gen price lastClosePrice times bins) :
    (∀ bin ∈ bins.head?, bin.openPrice = lastClosePrice) ∧
      bins.IsChain fun bin bin' => bin.closePrice ctx = .ok bin'.openPrice := by
  induction h with
  | nil => exact ⟨nofun, .nil⟩
  | cons hrecords hclose _ ih =>
    refine ⟨fun bin hbin => ?_, List.isChain_cons.mpr ⟨fun bin hbin => ?_, ih.2⟩⟩
    · obtain rfl := Option.some.inj hbin
      exact hrecords.openPrice
    · rw [hclose, ih.1 bin hbin]

end Filled

end

/-- Bins with different timestamps are all kept. -/
theorem foldl_setBin {F : Type} {filled : List (PriceBin F)} (bins : List (PriceBin F))
    (h : ((bins ++ filled).map fun bin => bin.timestamp).Nodup) :
    filled.foldl (setBin F) bins = bins ++ filled := by
  induction filled generalizing bins with
  | nil => rw [List.append_nil]; rfl
  | cons bin filled ih =>
    have hnew : setBin F bins bin = bins ++ [bin] := by
      refine if_neg ?_
      intro hany
      obtain ⟨b, hb, heq⟩ := List.any_eq_true.mp hany
      rw [List.map_append, List.map_cons] at h
      exact (List.nodup_append.mp h).2.2 _ (List.mem_map_of_mem hb) _ List.mem_cons_self
        (of_decide_eq_true heq)
    rw [List.foldl_cons, hnew, ih _ (by rwa [List.append_assoc]), List.append_assoc]
    rfl

/-! ## Exact bins -/

theorem truncate_intCast (n : ℤ) : truncate (n : ℚ) = n := by
  unfold truncate
  split
  · exact Int.floor_intCast n
  · exact Int.ceil_intCast n

theorem floor_div_intCast {b : ℤ} (hb : 1 ≤ b) (n : ℤ) : ⌊(n : ℚ) / b⌋ = n / b := by
  obtain ⟨d, rfl⟩ := Int.eq_ofNat_of_zero_le (zero_le_one.trans hb)
  exact Rat.floor_intCast_div_natCast n d

/-- The `i`th start is `i + 1` buckets after the given one. -/
theorem timeBins_exact (b : ℤ) (n : ℕ) (s : ℤ) : timeBins .exact b n s =
    (List.range n).map fun i : ℕ => s + (i + 1) * b := by
  induction n generalizing s with
  | zero => rfl
  | succ n ih =>
    have hstart : Decimal.Context.exact.round ((s : ℚ) + b) = ((s + b : ℤ) : ℚ) := by
      push_cast
      rfl
    rw [timeBins, hstart, ih, truncate_intCast, List.range_succ_eq_map, List.map_cons, List.map_map]
    refine congrArg₂ _ (by push_cast; ring) (List.map_congr_left fun i _ => ?_)
    show s + b + (i + 1) * b = s + ((i + 1 : ℕ) + 1) * b
    push_cast
    ring

theorem timeBinGen_exact {b : ℤ} (hb : 1 ≤ b) (now : ℤ) (n : ℕ) :
    timeBinGen .exact now n b =
      .ok ((List.range n).map fun i : ℕ => now / b * b - n * b + (i + 1) * b) := by
  have hne : (b : ℚ) ≠ 0 := Int.cast_ne_zero.mpr (by omega)
  have hdiv : decimalDiv .exact (now : ℚ) b = .ok (now / b) := if_neg hne
  have hstart : ((now / b : ℤ) : ℚ) * b + b * ((-n : ℤ) : ℚ) = ((now / b * b - n * b : ℤ) : ℚ) := by
    push_cast
    ring
  unfold timeBinGen
  simp only [hdiv]
  show Except.ok (timeBins .exact b n (⌊(now : ℚ) / b⌋ * b + b * ((-n : ℤ) : ℚ))) = _
  rw [floor_div_intCast hb, hstart, timeBins_exact]

/-- The ranges of `n` bins from a time on. -/
def binTimes (lo b : ℤ) (n : ℕ) : List (ℤ × ℤ) :=
  (List.range n).map fun i : ℕ => (lo + i * b, lo + i * b + b)

theorem binTimes_succ (lo b : ℤ) (n : ℕ) :
    binTimes lo b (n + 1) = (lo, lo + b) :: binTimes (lo + b) b n := by
  unfold binTimes
  rw [List.range_succ_eq_map, List.map_cons, List.map_map]
  refine congrArg₂ _ (by simp) (List.map_congr_left fun i _ => ?_)
  show (lo + (i + 1 : ℕ) * b, lo + (i + 1 : ℕ) * b + b) = _
  push_cast
  refine Prod.ext ?_ ?_ <;> ring

theorem mem_binTimes {lo b : ℤ} {n : ℕ} {x : ℤ × ℤ} :
    x ∈ binTimes lo b n ↔ ∃ i < n, x = (lo + i * b, lo + i * b + b) := by
  unfold binTimes
  rw [List.mem_map]
  exact exists_congr fun i => and_congr List.mem_range eq_comm

theorem binTimes_increasing {b : ℤ} (hb : 1 ≤ b) (lo : ℤ) (n : ℕ) :
    ((binTimes lo b n).map Prod.fst).Pairwise (· < ·) := by
  unfold binTimes
  rw [List.map_map, List.pairwise_map]
  refine List.pairwise_lt_range.imp fun {i j} hij => ?_
  have hmul : (i : ℤ) * b < j * b := mul_lt_mul_of_pos_right (by exact_mod_cast hij) (by omega)
  exact Int.add_lt_add_left hmul lo

/-- The bin of a timestamp is decided by the timestamp. -/
theorem exists_binTimes {b : ℤ} (hb : 1 ≤ b) {lo t : ℤ} {n : ℕ} (hlo : lo ≤ t)
    (hhi : t < lo + n * b) : ∃ x ∈ binTimes lo b n, x.1 ≤ t ∧ t < x.1 + b := by
  have hnonneg : 0 ≤ (t - lo) / b := Int.ediv_nonneg (by omega) (by omega)
  have hlt : (t - lo) / b < n := Int.ediv_lt_of_lt_mul (by omega) (by omega)
  have hdiv := Int.mul_ediv_add_emod (t - lo) b
  have hmod := Int.emod_nonneg (t - lo) (b := b) (by omega)
  have hmod' := Int.emod_lt_of_pos (t - lo) (b := b) (by omega)
  have hcomm : (t - lo) / b * b = b * ((t - lo) / b) := mul_comm _ _
  refine ⟨_, mem_binTimes.mpr ⟨((t - lo) / b).toNat, by omega, rfl⟩, ?_, ?_⟩
  · rw [Int.toNat_of_nonneg hnonneg]
    omega
  · rw [Int.toNat_of_nonneg hnonneg]
    omega

/-- In exact arithmetic the bins end at the start of the bucket of the current time. -/
theorem binRanges_exact {b : ℤ} (hb : 1 ≤ b) (now : ℤ) (n : ℕ) : binRanges .exact now n b =
    .ok (binTimes (now / b * b - (n + 1) * b) b (n + 1)) := by
  have hstart : timeBinGen .exact now 2 b = .ok [now / b * b - b, now / b * b] := by
    have hfirst : now / b * b - (2 : ℕ) * b + ((0 : ℕ) + 1) * b = now / b * b - b := by
      push_cast
      ring
    have hsecond : now / b * b - (2 : ℕ) * b + ((1 : ℕ) + 1) * b = now / b * b := by
      push_cast
      ring
    rw [timeBinGen_exact hb]
    show Except.ok [now / b * b - (2 : ℕ) * b + ((0 : ℕ) + 1) * b,
      now / b * b - (2 : ℕ) * b + ((1 : ℕ) + 1) * b] = _
    rw [hfirst, hsecond]
  have hfrom : (now / b * b - b) / b * b = now / b * b - b := by
    have hmul : now / b * b - b = (now / b - 1) * b := by ring
    rw [hmul, Int.mul_ediv_cancel _ (by omega)]
  have hto : now / b * b / b * b = now / b * b := by
    rw [Int.mul_ediv_cancel _ (by omega)]
  have htimes : ((List.range (n + 1)).map fun i : ℕ =>
        now / b * b - b - (n + 1 : ℕ) * b + (i + 1) * b).zip
      ((List.range (n + 1)).map fun i : ℕ => now / b * b - (n + 1 : ℕ) * b + (i + 1) * b) =
      binTimes (now / b * b - (n + 1) * b) b (n + 1) := by
    rw [List.zip_map', binTimes]
    refine List.map_congr_left fun i _ => Prod.ext ?_ ?_ <;> push_cast <;> ring
  unfold binRanges
  rw [hstart]
  show (do
    return (← timeBinGen .exact (now / b * b - b) (n + 1) b).zip
      (← timeBinGen .exact (now / b * b) (n + 1) b)) = _
  rw [timeBinGen_exact hb, timeBinGen_exact hb, hfrom, hto, ← htimes]
  rfl

/-! ## The trades of the bins -/

/-- The trades between two timestamps. -/
def TradesView.within (v : TradesView) (lo hi : ℤ) : List Trade :=
  v.values.filter fun t => lo ≤ t.timestamp ∧ t.timestamp < hi

def volume (trades : List Trade) : ℕ := (trades.map fun t => t.offer.baseAmount).sum

theorem TradesView.trades_eq_within (v : TradesView) (lo hi : ℤ) :
    v.trades (some lo) (some hi) = v.within lo hi := by
  have hlt (t t' : Trade) (h : Pricing.keyLt t.key t'.key = true)
      (h' : Pricing.keyLt t'.key t.key = true) : t = t' := by
    have hself := Pricing.keyLt_trans h h'
    rw [Pricing.keyLt_irrefl] at hself
    cases hself
  unfold within
  rw [← trades_none]
  refine List.Perm.eq_of_pairwise (fun t t' _ _ => hlt t t') trades_sorted
    (trades_sorted.filter _) ?_
  refine (List.perm_ext_iff_of_nodup (nodup_trades _ _) ((nodup_trades _ _).filter _)).mpr
    fun t => ?_
  rw [List.mem_filter, decide_eq_true_eq, mem_trades, mem_trades]
  unfold InRange
  simp

/-- The volume of a range is the sum of those of its bins. -/
theorem TradesView.volume_binTimes (v : TradesView) {b : ℤ} (hb : 1 ≤ b) (lo : ℤ) (n : ℕ) :
    ((binTimes lo b n).map fun x => volume (v.trades (some x.1) (some x.2))).sum =
      volume (v.trades (some lo) (some (lo + n * b))) := by
  induction n generalizing lo with
  | zero =>
    rw [Nat.cast_zero, zero_mul, add_zero]
    have hnil : v.trades (some lo) (some lo) = [] := by
      refine List.eq_nil_iff_forall_not_mem.mpr ?_
      intro t ht
      have hrange := (mem_trades.mp ht).2
      exact absurd (hrange.2 lo rfl) (not_lt.mpr (hrange.1 lo rfl))
    rw [hnil]
    rfl
  | succ n ih =>
    have hend : lo + b + n * b = lo + (n + 1 : ℕ) * b := by
      push_cast
      ring
    have hsplit : v.trades (some lo) (some (lo + (n + 1 : ℕ) * b)) =
        v.trades (some lo) (some (lo + b)) ++
          v.trades (some (lo + b)) (some (lo + (n + 1 : ℕ) * b)) := by
      refine trades_append ?_ ?_
      · rintro a ⟨⟩
        omega
      · rintro c ⟨⟩
        rw [← hend]
        have hpos : 0 ≤ (n : ℤ) * b := mul_nonneg (Nat.cast_nonneg n) (by omega)
        omega
    rw [binTimes_succ, List.map_cons, List.sum_cons, ih, hend, hsplit, volume, volume, volume,
      List.map_append, List.sum_append]

/-- The bins partition the trades from the first start on to the end of the last bin. -/
structure ChartBins {F : Type} [Floats F] (v : TradesView) (lo b : ℤ) (n : ℕ)
    (bins : List (PriceBin F)) : Prop where
  timestamps : bins.map (fun bin => bin.timestamp) = (List.range n).map fun i : ℕ => lo + i * b
  amount : ∀ bin ∈ bins, bin.amount = volume (v.within bin.timestamp (bin.timestamp + b))
  covered : ∀ t, lo ≤ t → t < lo + n * b →
    ∃! bin, bin ∈ bins ∧ bin.timestamp ≤ t ∧ t < bin.timestamp + b
  bounded : ∀ bin ∈ bins, ∀ t, bin.timestamp ≤ t → t < bin.timestamp + b →
    lo ≤ t ∧ t < lo + n * b
  total : (bins.map fun bin => bin.amount).sum = volume (v.within lo (lo + n * b))
  opens : bins.IsChain fun bin bin' => bin.closePrice .exact = .ok bin'.openPrice
  empty : ∀ bin ∈ bins, v.within bin.timestamp (bin.timestamp + b) = [] →
    bin.closePrice .exact = .ok bin.openPrice

theorem Filled.chartBins {F : Type} [Floats F] {v : TradesView} {price : Trade → ℚ} {last : F}
    {lo b : ℤ} {n : ℕ} {bins : List (PriceBin F)}
    (h : Filled .exact v.trades price last (binTimes lo b n) bins) (hb : 1 ≤ b) :
    ChartBins v lo b n bins := by
  have hmem {bin : PriceBin F} (hbin : bin ∈ bins) : ∃ i < n, bin.timestamp = lo + i * b ∧
      bin.amount = volume (v.within bin.timestamp (bin.timestamp + b)) ∧
      (v.within bin.timestamp (bin.timestamp + b) = [] →
        bin.closePrice .exact = .ok bin.openPrice) := by
    obtain ⟨x, hx, htime, hamount, hempty⟩ := h.mem hbin
    obtain ⟨i, hi, rfl⟩ := mem_binTimes.mp hx
    have hrange : v.trades (some (lo + i * b)) (some (lo + i * b + b)) =
        v.within bin.timestamp (bin.timestamp + b) := by rw [v.trades_eq_within, htime]
    rw [← hrange]
    exact ⟨i, hi, htime, hamount, hempty⟩
  have hnodup : (bins.map fun bin => bin.timestamp).Nodup := by
    rw [h.timestamps]
    exact (binTimes_increasing hb lo n).imp fun h => h.ne
  constructor
  · rw [h.timestamps, binTimes, List.map_map]
    rfl
  · intro bin hbin
    obtain ⟨-, -, -, hamount, -⟩ := hmem hbin
    exact hamount
  · intro t hlo hhi
    obtain ⟨x, hx, hle, hlt⟩ := exists_binTimes hb hlo hhi
    have htimes : x.1 ∈ bins.map fun bin => bin.timestamp := by
      rw [h.timestamps]
      exact List.mem_map_of_mem hx
    obtain ⟨bin, hbin, htime⟩ := List.mem_map.mp htimes
    rw [← htime] at hle hlt
    refine ⟨bin, ⟨hbin, hle, hlt⟩, ?_⟩
    rintro bin' ⟨hbin', hle', hlt'⟩
    -- Both starts are multiples of the bucket below the timestamp.
    refine List.inj_on_of_nodup_map hnodup hbin' hbin ?_
    obtain ⟨i, -, hi, -⟩ := hmem hbin
    obtain ⟨j, -, hj, -⟩ := hmem hbin'
    have hij : (i : ℤ) < j + 1 := by
      refine lt_of_mul_lt_mul_right (a := b) ?_ (by omega)
      rw [add_mul, one_mul]
      omega
    have hji : (j : ℤ) < i + 1 := by
      refine lt_of_mul_lt_mul_right (a := b) ?_ (by omega)
      rw [add_mul, one_mul]
      omega
    obtain rfl : i = j := by omega
    rw [hi, hj]
  · intro bin hbin t hle hlt
    obtain ⟨i, hi, htime, -⟩ := hmem hbin
    have hlow : 0 ≤ (i : ℤ) * b := mul_nonneg (Nat.cast_nonneg i) (by omega)
    have hhigh : ((i : ℤ) + 1) * b ≤ n * b := mul_le_mul_of_nonneg_right (by omega) (by omega)
    rw [add_mul, one_mul] at hhigh
    omega
  · rw [h.amounts]
    refine (v.volume_binTimes hb lo n).trans ?_
    rw [v.trades_eq_within]
  · exact h.chain.2
  · intro bin hbin
    obtain ⟨-, -, -, -, hempty⟩ := hmem hbin
    exact hempty

/-- The bins of the chart, for trades with prices: as many as asked for, up to the start of the
bucket of the current time. -/
theorem price_bins_partition (F : Type) [Floats F] (v : TradesView) (now b : ℤ) (n : ℕ)
    (interval : Number) (hinterval : timeGroupInterval interval = .ok b) (hb : 1 ≤ b)
    (hprice : ∀ t ∈ v.within (now / b * b - (n + 1) * b) (now / b * b),
      ∃ q, quantizedPrice .exact F priceGroupPrecision t.offer = .ok q) :
    ∃ bins, makePriceBins F .exact v.trades now n interval = .ok bins ∧
      ChartBins v (now / b * b - n * b) b n bins := by
  choose! price hprice using hprice
  have hranges : ∀ x ∈ binTimes (now / b * b - (n + 1) * b) b (n + 1),
      ∀ t ∈ v.trades (some x.1) (some x.2),
        quantizedPrice .exact F priceGroupPrecision t.offer = .ok (price t) := by
    intro x hx t ht
    obtain ⟨i, hi, rfl⟩ := mem_binTimes.mp hx
    rw [v.trades_eq_within] at ht
    obtain ⟨ht, hrange⟩ := List.mem_filter.mp ht
    rw [decide_eq_true_eq] at hrange
    refine hprice t (List.mem_filter.mpr ⟨ht, decide_eq_true ?_⟩)
    have hlow : 0 ≤ (i : ℤ) * b := mul_nonneg (Nat.cast_nonneg i) (by omega)
    have hhigh : ((i : ℤ) + 1) * b ≤ (n + 1) * b := mul_le_mul_of_nonneg_right (by omega) (by omega)
    rw [add_mul, one_mul] at hhigh
    omega
  obtain ⟨filled, hok, hfilled⟩ := fillBins_filled hranges [] (Floats.ofDecimal 0)
  have hincreasing : (filled.map fun bin => bin.timestamp).Pairwise (· < ·) := by
    rw [hfilled.timestamps]
    exact binTimes_increasing hb _ _
  have hlength : filled.length = n + 1 := by
    have hlen := congrArg List.length hfilled.timestamps
    rwa [List.length_map, List.length_map, binTimes, List.length_map, List.length_range] at hlen
  have hsorted : filled.insertionSort (fun bin bin' => bin.timestamp ≤ bin'.timestamp) = filled :=
    List.Pairwise.insertionSort_eq ((List.pairwise_map.mp hincreasing).imp fun h => h.le)
  rw [foldl_setBin [] (hincreasing.imp fun h => h.ne), List.nil_append] at hok
  refine ⟨filled.tail, ?_, ?_⟩
  · refine makePriceBins_eq_ok.mpr ⟨b, hinterval, _, binRanges_exact hb now n, filled, hok, ?_⟩
    rw [withoutFirst, if_pos hlength, hsorted]
  · have hstart : now / b * b - (n + 1) * b + b = now / b * b - n * b := by ring
    rw [binTimes_succ, hstart] at hfilled
    cases hfilled with
    | cons _ _ hrest => exact hrest.chartBins hb

/-- A trade in the last of two bins of a second. -/
theorem one_trade_charted : ∃ o : BasicOffer ℕ, ∃ bins,
    makePriceBins Double .exact
      (TradesView.run [.addPending (.offer o), .reportCompleted 7 4500]).trades 5000 2 (.int 1) =
        .ok bins ∧
      bins.map (fun bin => bin.amount) = [0, 10] ∧
      ChartBins (TradesView.run [.addPending (.offer o), .reportCompleted 7 4500])
        (5000 / 1000 * 1000 - (2 : ℕ) * 1000) 1000 2 bins := by
  let o : BasicOffer ℕ :=
    { offerId := 7, type := .buy, baseAmount := 10, quoteAmount := 20, timeoutDate := 100 }
  obtain ⟨bins, hbins, hchart⟩ := price_bins_partition Double
    (TradesView.run [.addPending (.offer o), .reportCompleted 7 4500]) 5000 1000 2 (.int 1)
    (by decide +kernel) (by decide) fun t ht => by
      have hwithin : (TradesView.run [.addPending (.offer o), .reportCompleted 7 4500]).within
          (5000 / 1000 * 1000 - ((2 : ℕ) + 1) * 1000) (5000 / 1000 * 1000) = [⟨o, 4500⟩] := by
        decide +kernel
      rw [hwithin] at ht
      obtain rfl := List.mem_singleton.mp ht
      exact ⟨2, by decide +kernel⟩
  refine ⟨o, bins, hbins, ?_, hchart⟩
  have hamounts : (makePriceBins Double .exact (TradesView.run
      [.addPending (.offer o), .reportCompleted 7 4500]).trades 5000 2 (.int 1)).toOption.map
        (List.map fun bin => bin.amount) = some [0, 10] := by decide +kernel
  rw [hbins] at hamounts
  exact Option.some.inj hamounts

/-- A trade without a base amount has no price, and the chart of its range raises. -/
theorem worthless_trade_not_charted : ∃ o : BasicOffer ℕ,
    (TradesView.run [.addPending (.offer o), .reportCompleted 7 4500]).values = [⟨o, 4500⟩] ∧
    makePriceBins Double .exact
      (TradesView.run [.addPending (.offer o), .reportCompleted 7 4500]).trades 5000 2 (.int 1) =
        .error .zeroDivisionError := by
  let o : BasicOffer ℕ :=
    { offerId := 7, type := .buy, baseAmount := 0, quoteAmount := 20, timeoutDate := 100 }
  refine ⟨o, by decide +kernel, ?_⟩
  -- Bins have no decidable equality, their number has.
  have hlength : (makePriceBins Double .exact
      (TradesView.run [.addPending (.offer o), .reportCompleted 7 4500]).trades 5000 2
        (.int 1)).map List.length = .error .zeroDivisionError := by decide +kernel
  revert hlength
  cases makePriceBins Double .exact
    (TradesView.run [.addPending (.offer o), .reportCompleted 7 4500]).trades 5000 2 (.int 1) with
  | ok bins => exact nofun
  | error e => exact fun h => congrArg Except.error (Except.error.inj h)

end RaidexNode
end Raidex
