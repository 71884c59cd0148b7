import Raidex.Lib.ListUpdate
import Raidex.RaidexNode.OfferGrouping

/-!
# Raidex.RaidexNode.PriceBins

The bins of the price chart, and what a bin says about the trades that are added to it.

* `PriceBin`, `makePriceBins`: the bins and the loop of the source.
* `PriceBin.Records`: what a bin has kept of the trades added to it; `records_addAll` is the run.
* `bin_statistics_iff`: the least and the greatest price of a bin are right exactly when its open
  price is zero or no price is.
-/

namespace Raidex
namespace RaidexNode

/-- A trade as it is added to a bin. -/
structure PricedTrade where
  timestamp : ℤ
  amount : ℕ
  price : ℚ

/-- `minPrice?` and `maxPrice?` are what `_min_price` and `_max_price` hold. -/
structure PriceBin (F : Type) where
  openPrice : F
  closePrices : List ℚ
  closeTimestamp : Option ℤ
  minPrice? : Option ℚ
  maxPrice? : Option ℚ
  amount : ℕ
  timestamp : ℤ
  closed : closeTimestamp = none ↔ closePrices = []

namespace PriceBin

variable {F : Type}

def new (openPrice : F) (timestampBin : ℤ) : PriceBin F where
  openPrice := openPrice
  closePrices := []
  closeTimestamp := none
  minPrice? := none
  maxPrice? := none
  amount := 0
  timestamp := timestampBin
  closed := iff_of_true rfl rfl

/-- The prices at the latest timestamp are started anew, gain one, or stay. -/
def addClosePrice (closePrices : List ℚ) (closeTimestamp : Option ℤ) (timestmp : ℤ) (price : ℚ) :
    List ℚ :=
  if closeTimestamp.all fun t => t < timestmp then [price]
  else if closeTimestamp = some timestmp then closePrices ++ [price]
  else closePrices

theorem addClosePrice_eq_nil {closePrices : List ℚ} {closeTimestamp : Option ℤ} {timestmp : ℤ}
    {price : ℚ} (h : closeTimestamp = none ↔ closePrices = []) :
    addClosePrice closePrices closeTimestamp timestmp price ≠ [] := by
  unfold addClosePrice
  split
  · exact List.cons_ne_nil _ _
  next hall =>
    split
    · exact List.append_ne_nil_of_right_ne_nil _ (List.cons_ne_nil _ _)
    · intro hnil
      rw [h.mpr hnil] at hall
      exact hall rfl

def add (b : PriceBin F) (t : PricedTrade) : PriceBin F where
  openPrice := b.openPrice
  closePrices := addClosePrice b.closePrices b.closeTimestamp t.timestamp t.price
  closeTimestamp :=
    if b.closeTimestamp.all fun t' => t' < t.timestamp then some t.timestamp else b.closeTimestamp
  minPrice? := if b.minPrice?.all fun p => t.price < p then some t.price else b.minPrice?
  maxPrice? := if b.maxPrice?.all fun p => p < t.price then some t.price else b.maxPrice?
  amount := b.amount + t.amount
  timestamp := b.timestamp
  closed := by
    refine iff_of_false (fun hnone => ?_) (addClosePrice_eq_nil b.closed)
    split at hnone
    · cases hnone
    next hall => rw [hnone] at hall; exact hall rfl

def addAll (b : PriceBin F) (ts : List PricedTrade) : PriceBin F := ts.foldl add b

variable [Floats F] (ctx : Decimal.Context)

def closePriceDecimal (b : PriceBin F) : Except PyError ℚ :=
  decimalDiv ctx (decimalSum ctx b.closePrices) b.closePrices.length

def closePrice (b : PriceBin F) : Except PyError F :=
  match b.closeTimestamp with
  | none => return b.openPrice
  | some _ => do return Floats.ofDecimal (← b.closePriceDecimal ctx)

/-- `price or open_price`, as a `float`: a zero counts as no price. -/
def orOpenPrice (b : PriceBin F) (price : Option ℚ) : F :=
  match price with
  | none => b.openPrice
  | some p => if p = 0 then b.openPrice else Floats.ofDecimal p

def minPrice (b : PriceBin F) : F := b.orOpenPrice b.minPrice?

def maxPrice (b : PriceBin F) : F := b.orOpenPrice b.maxPrice?

end PriceBin

/-! ## What a bin has kept -/

namespace PriceBin

/-- The trades with the latest timestamp. -/
def latest (ts : List PricedTrade) : List PricedTrade :=
  ts.filter fun t => (ts.map PricedTrade.timestamp).max? = some t.timestamp

theorem latest_concat (ts : List PricedTrade) (t : PricedTrade) : latest (ts ++ [t]) =
    if (ts.map PricedTrade.timestamp).max?.all fun t' => t' < t.timestamp then [t]
    else if (ts.map PricedTrade.timestamp).max? = some t.timestamp then latest ts ++ [t]
    else latest ts := by
  unfold latest
  rw [List.map_append, List.map_cons, List.map_nil, List.max?_concat, List.filter_append]
  split
  next hall =>
    have hnone : ts.filter (fun t' => some t.timestamp = some t'.timestamp) = [] := by
      refine List.filter_eq_nil_iff.mpr ?_
      intro t' ht' heq
      have hmem : t'.timestamp ∈ ts.map PricedTrade.timestamp := List.mem_map_of_mem ht'
      obtain ⟨last, hlast⟩ := Option.isSome_iff_exists.mp (List.isSome_max?_of_mem hmem)
      rw [hlast, Option.all_some, decide_eq_true_eq] at hall
      have hle := (List.max?_eq_some_iff.mp hlast).2 _ hmem
      have hsame := Option.some.inj (of_decide_eq_true heq)
      omega
    rw [hnone, List.filter_cons_of_pos (by simp)]
    rfl
  next hall =>
    split
    next heq => rw [List.filter_cons_of_pos (by simpa using heq), List.filter_nil]
    next hne =>
      rw [List.filter_cons_of_neg (by simpa using hne), List.filter_nil, List.append_nil]

theorem latest_ne_nil {ts : List PricedTrade} (h : ts ≠ []) : latest ts ≠ [] := by
  have hne : ts.map PricedTrade.timestamp ≠ [] := fun hnil => h (List.map_eq_nil_iff.mp hnil)
  obtain ⟨last, hlast⟩ := Option.isSome_iff_exists.mp (List.isSome_max?_of_ne_nil hne)
  obtain ⟨t, ht, rfl⟩ := List.mem_map.mp (List.max?_eq_some_iff.mp hlast).1
  exact List.ne_nil_of_mem (List.mem_filter.mpr ⟨ht, decide_eq_true hlast⟩)

variable {F : Type}

/-- A bin that was opened at the price has kept the least and the greatest price, the prices at the
latest timestamp, and the sum of the amounts. -/
structure Records (openPrice : F) (timestampBin : ℤ) (ts : List PricedTrade) (b : PriceBin F) :
    Prop where
  openPrice : b.openPrice = openPrice
  timestamp : b.timestamp = timestampBin
  amount : b.amount = (ts.map PricedTrade.amount).sum
  minPrice : b.minPrice? = (ts.map PricedTrade.price).min?
  maxPrice : b.maxPrice? = (ts.map PricedTrade.price).max?
  closeTimestamp : b.closeTimestamp = (ts.map PricedTrade.timestamp).max?
  closePrices : b.closePrices = (latest ts).map PricedTrade.price

section

variable {openPrice : F} {timestampBin : ℤ} {ts : List PricedTrade} {b : PriceBin F}

theorem records_new : Records openPrice timestampBin [] (.new openPrice timestampBin) :=
  ⟨rfl, rfl, rfl, rfl, rfl, rfl, rfl⟩

theorem Records.add (h : Records openPrice timestampBin ts b) (t : PricedTrade) :
    Records openPrice timestampBin (ts ++ [t]) (b.add t) := by
  have hmap {A : Type} (f : PricedTrade → A) : (ts ++ [t]).map f = ts.map f ++ [f t] := by
    rw [List.map_append]
    rfl
  constructor
  · exact h.openPrice
  · exact h.timestamp
  · rw [hmap, List.sum_append, List.sum_singleton, ← h.amount]
    rfl
  · rw [hmap, List.min?_concat, ← h.minPrice]
    rfl
  · rw [hmap, List.max?_concat, ← h.maxPrice]
    rfl
  · rw [hmap, List.max?_concat, ← h.closeTimestamp]
    rfl
  · show addClosePrice b.closePrices b.closeTimestamp t.timestamp t.price = _
    rw [latest_concat, addClosePrice, h.closeTimestamp, h.closePrices]
    split
    · rfl
    · split
      · rw [List.map_append]
        rfl
      · rfl

theorem records_addAll (openPrice : F) (timestampBin : ℤ) (ts : List PricedTrade) :
    Records openPrice timestampBin ts (addAll (.new openPrice timestampBin) ts) := by
  induction ts using List.reverseRecOn with
  | nil => exact records_new
  | append_singleton ts t ih =>
    rw [addAll, List.foldl_append]
    exact ih.add t

end

/-! ## Statistics -/

theorem decimalSum_exact (l : List ℚ) : decimalSum .exact l = l.sum := List.sum_eq_foldl.symm

/-- What the bin of the trades should say. -/
structure BinStatistics (ts : List PricedTrade) (b : PriceBin ℚ) : Prop where
  amount : b.amount = (ts.map PricedTrade.amount).sum
  minPrice : (ts.map PricedTrade.price).min? = some b.minPrice
  maxPrice : (ts.map PricedTrade.price).max? = some b.maxPrice
  closePrice : b.closePrice .exact =
    .ok (((latest ts).map PricedTrade.price).sum / (latest ts).length)
  between : ∀ c, b.closePrice .exact = .ok c → b.minPrice ≤ c ∧ c ≤ b.maxPrice

section

variable {openPrice : ℚ} {timestampBin : ℤ} {ts ts' : List PricedTrade} {b : PriceBin ℚ}

theorem BinStatistics.perm (h : BinStatistics ts b) (hperm : ts.Perm ts') :
    BinStatistics ts' b := by
  have hlatest : (latest ts).Perm (latest ts') := by
    unfold latest
    rw [(hperm.map PricedTrade.timestamp).max?_eq]
    exact hperm.filter _
  constructor
  · rw [h.amount, (hperm.map _).sum_eq]
  · rw [← h.minPrice, (hperm.map _).min?_eq]
  · rw [← h.maxPrice, (hperm.map _).max?_eq]
  · rw [h.closePrice, (hlatest.map _).sum_eq, hlatest.length_eq]
  · exact h.between

theorem Records.closePrice_eq (h : Records openPrice timestampBin ts b) (hne : ts ≠ []) :
    b.closePrice .exact = .ok (((latest ts).map PricedTrade.price).sum / (latest ts).length) := by
  have hsome : b.closeTimestamp ≠ none := by
    rw [h.closeTimestamp, Ne, List.max?_eq_none_iff, List.map_eq_nil_iff]
    exact hne
  have hlen : ((latest ts).length : ℚ) ≠ 0 :=
    Nat.cast_ne_zero.mpr (List.length_pos_of_ne_nil (latest_ne_nil hne)).ne'
  unfold closePrice
  split
  next hnone => exact absurd hnone hsome
  · rw [closePriceDecimal, h.closePrices, List.length_map, decimalSum_exact, decimalDiv,
      if_neg hlen]
    rfl

/-- A price that is not zero is the one that the bin shows. -/
theorem orOpenPrice_eq_iff {p : ℚ} :
    b.orOpenPrice (some p) = p ↔ b.openPrice = 0 ∨ p ≠ 0 := by
  show (if p = 0 then b.openPrice else p) = p ↔ _
  by_cases hp : p = 0
  · rw [if_pos hp, hp]
    exact ⟨.inl, fun h => h.resolve_right fun hne => hne rfl⟩
  · rw [if_neg hp]
    exact iff_of_true rfl (.inr hp)

theorem Records.statistics (h : Records openPrice timestampBin ts b) (hne : ts ≠ [])
    (hprice : openPrice = 0 ∨ ∀ t ∈ ts, t.price ≠ 0) : BinStatistics ts b := by
  have hprices : ts.map PricedTrade.price ≠ [] := fun hnil => hne (List.map_eq_nil_iff.mp hnil)
  have hshown {p : ℚ} (hp : p ∈ ts.map PricedTrade.price) : b.orOpenPrice (some p) = p := by
    rw [orOpenPrice_eq_iff, h.openPrice]
    obtain ⟨t, ht, rfl⟩ := List.mem_map.mp hp
    exact hprice.imp_right fun hall => hall t ht
  obtain ⟨lo, hlo⟩ := Option.isSome_iff_exists.mp (List.isSome_min?_of_ne_nil hprices)
  obtain ⟨hi, hhi⟩ := Option.isSome_iff_exists.mp (List.isSome_max?_of_ne_nil hprices)
  obtain ⟨hlomem, hlo'⟩ := List.min?_eq_some_iff.mp hlo
  obtain ⟨himem, hhi'⟩ := List.max?_eq_some_iff.mp hhi
  have hmin : b.minPrice = lo := by
    show b.orOpenPrice b.minPrice? = lo
    rw [h.minPrice, hlo, hshown hlomem]
  have hmax : b.maxPrice = hi := by
    show b.orOpenPrice b.maxPrice? = hi
    rw [h.maxPrice, hhi, hshown himem]
  have hlatest {p : ℚ} (hp : p ∈ (latest ts).map PricedTrade.price) :
      p ∈ ts.map PricedTrade.price :=
    (List.filter_sublist.map PricedTrade.price).subset hp
  constructor
  · exact h.amount
  · rw [hlo, hmin]
  · rw [hhi, hmax]
  · exact h.closePrice_eq hne
  · intro c hc
    rw [h.closePrice_eq hne] at hc
    obtain rfl := Except.ok.inj hc
    rw [hmin, hmax, ← List.length_map PricedTrade.price]
    refine List.mean_between ?_ (fun p hp => hlo' p (hlatest hp)) fun p hp => hhi' p (hlatest hp)
    exact fun hnil => latest_ne_nil hne (List.map_eq_nil_iff.mp hnil)

end

/-- In every order of the trades a bin has the right amount, least and greatest price and close
price, exactly when it opens at zero or no price is zero. -/
theorem bin_statistics_iff (openPrice : ℚ) (timestampBin : ℤ) (ts : List PricedTrade)
    (hne : ts ≠ []) (hprice : ∀ t ∈ ts, 0 ≤ t.price) :
    (∀ ts', ts.Perm ts' → BinStatistics ts (addAll (.new openPrice timestampBin) ts')) ↔
      openPrice = 0 ∨ ∀ t ∈ ts, t.price ≠ 0 := by
  constructor
  · intro h
    have hrecords := records_addAll openPrice timestampBin ts
    have hmin := (h ts (List.Perm.refl ts)).minPrice
    obtain ⟨p, hp⟩ : ∃ p, (addAll (new openPrice timestampBin) ts).minPrice = p := ⟨_, rfl⟩
    rw [hp] at hmin
    have hshown : (addAll (new openPrice timestampBin) ts).orOpenPrice
        (addAll (new openPrice timestampBin) ts).minPrice? = p := hp
    rw [hrecords.minPrice, hmin, orOpenPrice_eq_iff, hrecords.openPrice] at hshown
    refine hshown.imp_right fun hpos t ht hzero => hpos ?_
    obtain ⟨hmem, hle⟩ := List.min?_eq_some_iff.mp hmin
    obtain ⟨t', ht', rfl⟩ := List.mem_map.mp hmem
    exact le_antisymm (hzero ▸ hle _ (List.mem_map_of_mem ht)) (hprice t' ht')
  · intro h ts' hperm
    refine ((records_addAll openPrice timestampBin ts').statistics ?_ ?_).perm hperm.symm
    · exact fun hnil => hne (List.perm_nil.mp (hnil ▸ hperm))
    · exact h.imp_right fun hall t ht => hall t (hperm.mem_iff.mpr ht)

/-- Two trades at one time, added the other way around. -/
theorem two_trades_statistics :
    BinStatistics [⟨5, 10, 1⟩, ⟨5, 20, 2⟩] (addAll (.new 2 0) [⟨5, 20, 2⟩, ⟨5, 10, 1⟩]) :=
  (bin_statistics_iff 2 0 [⟨5, 10, 1⟩, ⟨5, 20, 2⟩] (List.cons_ne_nil _ _)
    (by decide +kernel)).mpr (.inr (by decide +kernel)) _ (List.Perm.swap ..)

/-- A single trade at the price of zero is shown at the open price. -/
theorem zero_shown_as_open :
    (addAll (.new 2 0) [⟨5, 10, 0⟩] : PriceBin ℚ).minPrice = 2 ∧
      (addAll (.new 2 0) [⟨5, 10, 0⟩] : PriceBin ℚ).maxPrice = 2 ∧
      ((addAll (.new 2 0) [⟨5, 10, 0⟩] : PriceBin ℚ).closePrice .exact).toOption = some 0 := by
  decide +kernel

end PriceBin

/-! ## The loop -/

section

variable (F : Type) [Floats F] (ctx : Decimal.Context)

/-- `int(timestamp.to_milliseconds(interval))` -/
def timeGroupInterval (interval : Number) : Except PyError ℤ := do
  Double.truncate (← interval.mulFloat (Float.Model.ofInt 1000))

def addTrades (bin : PriceBin F) (trades : List Trade) : Except PyError (PriceBin F) :=
  trades.foldlM (fun bin trade => do
    let price ← quantizedPrice ctx F priceGroupPrecision trade.offer
    return bin.add ⟨trade.timestamp, trade.offer.baseAmount, price⟩) bin

/-- `price_bins[from_time] = price_bin` -/
def setBin (bins : List (PriceBin F)) (bin : PriceBin F) : List (PriceBin F) :=
  if bins.any fun b => b.timestamp = bin.timestamp then
    bins.map fun b => if b.timestamp = bin.timestamp then bin else b
  else bins ++ [bin]

/-- Each bin opens at the price at which the one before it closes. -/
def fillBins (tradesGenFunc : Option ℤ → Option ℤ → List Trade) :
    List (ℤ × ℤ) → List (PriceBin F) → F → Except PyError (List (PriceBin F))
  | [], bins, _ => return bins
  | (fromTime, toTime) :: times, bins, lastClosePrice => do
    let bin ← addTrades F ctx (.new lastClosePrice fromTime)
      (tradesGenFunc (some fromTime) (some toTime))
    fillBins tradesGenFunc times (setBin F bins bin) (← bin.closePrice ctx)

/-- The ranges of the bins, and one before them. -/
def binRanges (currentTimestamp : ℤ) (nofBuckets : ℕ) (timeGroupInterval : ℤ) :
    Except PyError (List (ℤ × ℤ)) := do
  match ← timeBinGen ctx currentTimestamp 2 timeGroupInterval with
  | [fromStartTime, toStartTime] =>
    let fromTimes ← timeBinGen ctx fromStartTime (nofBuckets + 1) timeGroupInterval
    let toTimes ← timeBinGen ctx toStartTime (nofBuckets + 1) timeGroupInterval
    return fromTimes.zip toTimes
  | _ => throw .valueError

variable {F} in
/-- The first bin is only there for the open price of the second. -/
def withoutFirst (nofBuckets : ℕ) (bins : List (PriceBin F)) :
    Except PyError (List (PriceBin F)) :=
  if bins.length = nofBuckets + 1 then
    .ok (bins.insertionSort fun b b' => b.timestamp ≤ b'.timestamp).tail
  else .error .assertionError

def makePriceBins (tradesGenFunc : Option ℤ → Option ℤ → List Trade) (currentTimestamp : ℤ)
    (nofBuckets : ℕ) (interval : Number) : Except PyError (List (PriceBin F)) := do
  let timeGroupInterval ← timeGroupInterval interval
  let times ← binRanges ctx currentTimestamp nofBuckets timeGroupInterval
  let bins ← fillBins F ctx tradesGenFunc times [] (Floats.ofDecimal 0)
  withoutFirst nofBuckets bins

variable {F ctx} in
theorem makePriceBins_eq_ok {gen : Option ℤ → Option ℤ → List Trade} {now : ℤ} {n : ℕ}
    {interval : Number} {bins : List (PriceBin F)} :
    makePriceBins F ctx gen now n interval = .ok bins ↔
      ∃ b, timeGroupInterval interval = .ok b ∧ ∃ times, binRanges ctx now n b = .ok times ∧
        ∃ filled, fillBins F ctx gen times [] (Floats.ofDecimal 0) = .ok filled ∧
          withoutFirst n filled = .ok bins := by
  unfold makePriceBins
  simp only [Except.bind_eq_ok]

end

end RaidexNode
end Raidex
