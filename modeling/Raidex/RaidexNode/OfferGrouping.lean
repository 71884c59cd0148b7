import Raidex.Lib.Decimal
import Raidex.Lib.Grouping
import Raidex.RoundedNumber
import Raidex.RaidexNode.FloatPrices
import Raidex.RaidexNode.Trades

/-!
# Raidex.RaidexNode.OfferGrouping

The views of the offer book and of the trades: offers grouped by price, trades grouped by price and
time, and the bins of the price chart.

Prices are `float`s that are computed with as decimals, over the digits and the rounding of the
decimal context. `Floats` is what the source does with a `float`; exact ones are rational numbers.
-/

namespace Raidex
namespace RaidexNode

class Floats (F : Type) extends Pricing F where
  /-- `Decimal(f)`, of a finite price. -/
  toDecimal : F → Except PyError ℚ
  /-- `float(d)` -/
  ofDecimal : ℚ → F
  /-- `a / b`, of integers. -/
  divide : ℤ → ℤ → Except PyError F

instance : Floats ℚ where
  toDecimal q := .ok q
  ofDecimal q := q
  divide a b := if b = 0 then .error .zeroDivisionError else .ok (a / b)

/-- An infinity cannot be quantized. -/
instance : Floats Double where
  toDecimal f :=
    match f.exact with
    | none => .error .invalidOperation
    | some q => .ok q
  ofDecimal := Double.ofRat
  divide := Double.divideInt

theorem toDecimal_eq_ok {f : Double} {q : ℚ} :
    Floats.toDecimal f = .ok q ↔ f.exact = some q := by
  show (match f.exact with
    | none => .error .invalidOperation
    | some q => .ok q : Except PyError ℚ) = .ok q ↔ _
  cases f.exact <;> simp

/-- `PRICE_GROUP_PRECISION` -/
def priceGroupPrecision : ℕ := 1

/-- `TIME_GROUP_INTERVAL_MS` -/
def timeGroupIntervalMs : ℤ := 10000

/-- `getcontext()`, with the precision and the rounding that the module sets. -/
def getcontext : Decimal.Context := ⟨some 28⟩

/-! ## Decimals -/

section

variable (ctx : Decimal.Context)

/-- `d / d'` -/
def decimalDiv (x y : ℚ) : Except PyError ℚ :=
  if y = 0 then
    if x = 0 then .error .invalidOperation else .error .zeroDivisionError
  else .ok (ctx.round (x / y))

/-- `sum(l)` -/
def decimalSum (l : List ℚ) : ℚ := l.foldl (fun x y => ctx.round (x + y)) 0

/-- The price of an offer, `quantize`d to `Decimal(10) ** -places`. -/
def quantizedPrice (F : Type) [Floats F] (places : ℕ) (o : BasicOffer Nat) : Except PyError ℚ := do
  let price : F ← Pricing.offerPrice o
  match ctx.quantize places (← Floats.toDecimal price) with
  | none => throw .invalidOperation
  | some quantized => return quantized

theorem quantizedPrice_eq {F : Type} [Floats F] {places : ℕ} {o : BasicOffer ℕ} {price : F}
    {q quantized : ℚ} (hprice : Pricing.offerPrice o = .ok price)
    (hdecimal : Floats.toDecimal price = .ok q)
    (hquantize : ctx.quantize places q = some quantized) :
    quantizedPrice ctx F places o = .ok quantized := by
  unfold quantizedPrice
  rw [hprice]
  show (Floats.toDecimal price >>= fun _ => _) = _
  rw [hdecimal]
  simp only [bind, Except.bind, hquantize]
  rfl

/-- The start of the bin of a timestamp, and the end that the source computes. -/
def findTimeBin (timestmp offset timeGroupInterval : ℤ) : Except PyError (ℤ × ℤ) := do
  let bucketSize : ℚ := timeGroupInterval
  let stopOffset := ctx.round ((offset : ℚ) + 1)
  let bin ← decimalDiv ctx timestmp bucketSize
  let startTime := ctx.round (ctx.round (⌊bin⌋ * bucketSize) + ctx.round (bucketSize * offset))
  let stopTime := ctx.round (startTime + ctx.round (bucketSize * stopOffset))
  return (truncate startTime, truncate stopTime)

/-- The loop of `time_bin_gen`: each step yields the next start. -/
def timeBins (bucketSize : ℚ) : ℕ → ℚ → List ℤ
  | 0, _ => []
  | n + 1, startTime =>
    let time := ctx.round (startTime + bucketSize)
    truncate time :: timeBins bucketSize n time

def timeBinGen (currentTimestamp : ℤ) (nofBins : ℕ) (timeGroupInterval : ℤ) :
    Except PyError (List ℤ) := do
  let bucketSize : ℚ := timeGroupInterval
  let bin ← decimalDiv ctx currentTimestamp bucketSize
  let stopTime := ctx.round (⌊bin⌋ * bucketSize)
  let startTime := ctx.round (stopTime + ctx.round (bucketSize * (-nofBins : ℤ)))
  return timeBins ctx bucketSize nofBins startTime

end

/-! ## Offers -/

structure GroupedOffer where
  price : ℚ
  amount : ℕ
  timeouts : List ℕ
  deriving DecidableEq

namespace GroupedOffer

def new (price : ℚ) : GroupedOffer where
  price := price
  amount := 0
  timeouts := []

def add (g : GroupedOffer) (amount timeout : ℕ) : GroupedOffer :=
  { g with amount := g.amount + amount, timeouts := g.timeouts ++ [timeout] }

def avgTimeout (F : Type) [Floats F] (g : GroupedOffer) : Except PyError F :=
  Floats.divide g.timeouts.sum g.timeouts.length

def maxTimeout (g : GroupedOffer) : Option ℕ := g.timeouts.max?

def minTimeout (g : GroupedOffer) : Option ℕ := g.timeouts.min?

end GroupedOffer

variable (F : Type) [Floats F] (ctx : Decimal.Context)

def addToGroup (groups : List (ℚ × GroupedOffer)) (entry : OfferBookEntry) (quantized : ℚ) :
    List (ℚ × GroupedOffer) :=
  Grouping.upsert quantized (.new quantized)
    (fun g => g.add entry.baseAmount entry.offer.timeoutDate) groups

def groupOffers (offers : List OfferBookEntry) (precision : Option ℕ) :
    Except PyError (List GroupedOffer) := do
  let places := precision.getD priceGroupPrecision
  let groups ← offers.foldlM (fun groups offer => do
    return addToGroup groups offer (← quantizedPrice ctx F places offer.offer)) []
  return (groups.map Prod.snd).insertionSort fun g g' => g.price ≤ g'.price

/-! ## Trades -/

/-- `hash(n)`, of an integer on a 64-bit platform. -/
def hashInt (n : ℤ) : ℤ :=
  let h := n.sign * (n.natAbs % (2 ^ 61 - 1) : ℕ)
  if h = -1 then -2 else h

structure GroupedTrade where
  price : ℚ
  type : OfferType
  amount : ℕ
  timestamp : ℤ
  hash : ℤ

namespace GroupedTrade

def new (price : ℚ) (timestampBin : ℤ) (offerId : ℕ) (type : OfferType) : GroupedTrade where
  price := price
  type := type
  amount := 0
  timestamp := timestampBin
  hash := hashInt (offerId + timestampBin + 0)

def add (g : GroupedTrade) (amount : ℕ) : GroupedTrade := { g with amount := g.amount + amount }

/-- Grouped trades are in the order of their times, and then of their prices. -/
def le (g g' : GroupedTrade) : Prop :=
  g.timestamp < g'.timestamp ∨ g.timestamp = g'.timestamp ∧ g.price ≤ g'.price

instance : DecidableRel le := fun g g' =>
  inferInstanceAs (Decidable (g.timestamp < g'.timestamp ∨
    g.timestamp = g'.timestamp ∧ g.price ≤ g'.price))

end GroupedTrade

/-- The price as a `float`, the start of the bin, and the type. -/
abbrev GroupKey (F : Type) := F × ℤ × OfferType

/-- The quantized price and the bin of a trade. -/
def tradeBucket (places : ℕ) (timeGroupInterval : ℤ) (t : Trade) : Except PyError (ℚ × ℤ) := do
  let quantized ← quantizedPrice ctx F places t.offer
  let (start, _) ← findTimeBin ctx t.timestamp 0 timeGroupInterval
  return (quantized, start)

variable {F} in
def bucketKey (bucket : ℚ × ℤ) (t : Trade) : GroupKey F :=
  (Floats.ofDecimal bucket.1, bucket.2, t.offer.type)

variable [DecidableEq F]

/-- The loop stops at the trade that would open one group too many. -/
def groupTradesLoop (chunkSize : Option ℕ) (places : ℕ) (timeGroupInterval : ℤ) :
    List Trade → List (GroupKey F × GroupedTrade) →
      Except PyError (List (GroupKey F × GroupedTrade))
  | [], groups => return groups
  | t :: trades, groups => do
    let bucket ← tradeBucket F ctx places timeGroupInterval t
    let key : GroupKey F := bucketKey bucket t
    let groups := Grouping.upsert key (.new bucket.1 bucket.2 t.offer.offerId t.offer.type)
      (fun g => g.add t.offer.baseAmount) groups
    if chunkSize.any fun n => groups.length = n + 1 then
      return groups.filter fun e => e.1 ≠ key
    else groupTradesLoop chunkSize places timeGroupInterval trades groups

def groupTrades (trades : List Trade) (chunkSize : Option ℕ) (precision : Option ℕ)
    (interval : Option ℤ) : Except PyError (List GroupedTrade) := do
  let groups ← groupTradesLoop F ctx chunkSize (precision.getD priceGroupPrecision)
    (interval.getD timeGroupIntervalMs) trades []
  return (groups.map Prod.snd).insertionSort GroupedTrade.le

def groupTradesFrom (tradesGenFunc : Option ℤ → Option ℤ → List Trade) (fromTimestamp : Option ℤ)
    (precision : Option ℕ) (interval : Option ℤ) :
    Except PyError (List GroupedTrade) := do
  let fromTime ← fromTimestamp.mapM fun t => do
    return (← findTimeBin ctx t 0 (interval.getD timeGroupIntervalMs)).1
  groupTrades F ctx (tradesGenFunc fromTime none) none precision interval

def getNRecentTrades (trades : List Trade) (nofTrades : ℕ) : Except PyError (List GroupedTrade) :=
  groupTrades F ctx trades.reverse (some nofTrades) none none

end RaidexNode
end Raidex
