import Raidex.RaidexNode.ExactPrices
import Raidex.RaidexNode.Trades

/-!
# Raidex.RaidexNode.MarketPrice

The market price of a node, in exact arithmetic.

* `marketPrice`: the source takes the number of trades for a timestamp, and reads an attribute that
  offers do not have. `marketPrice_eq`: what it returns or raises.
* `IsMarketPrice`: the average price of the most recent trades, weighted by their amounts.
* `market_price_iff`: the source computes it exactly when there are no trades.
-/

namespace Raidex
namespace RaidexNode

/-- The class `BasicOffer` has no attribute `amount`. -/
def BasicOffer.amount (_ : BasicOffer Nat) : Except PyError Nat := .error .attributeError

/-- `l[-n:]`. The slice `l[-0:]` is the whole list. -/
def lastItems {α : Type} (n : Nat) (l : List α) : List α :=
  if n = 0 then l else l.drop (l.length - n)

/-- The quotient of the amounts. -/
def Trade.price (t : Trade) : ℚ := t.offer.quoteAmount / t.offer.baseAmount

namespace TradesView

variable (v : TradesView) (tradeCount : Nat)

def marketPrice : Except PyError (Option ℚ) := do
  let tradesList := v.trades (some tradeCount) none
  let trades := (lastItems tradeCount tradesList).reverse
  if trades = [] then
    return none
  else if trades.insertionSort (fun t t' => -t.timestamp ≤ -t'.timestamp) ≠ trades then
    throw .assertionError
  else
    let amounts ← trades.mapM fun t => t.offer.amount
    let volumes ← trades.mapM fun t => do
      return (← Pricing.offerPrice t.offer : ℚ) * ((← t.offer.amount : Nat) : ℚ)
    if amounts.sum = 0 then throw .zeroDivisionError
    return some (volumes.sum / amounts.sum)

/-- The most recent trades, or all if there are fewer. -/
def recent : List Trade := lastItems tradeCount v.values

/-- No price where there are no trades, and else the average of the most recent ones, weighted by
their amounts. It is between their prices. -/
def IsMarketPrice : Option ℚ → Prop
  | none => v.values = []
  | some p => v.values ≠ [] ∧
    p = ((v.recent tradeCount).map fun t => t.price * (t.offer.baseAmount : ℚ)).sum /
      ((v.recent tradeCount).map fun t => (t.offer.baseAmount : ℚ)).sum ∧
    (∃ t ∈ v.recent tradeCount, t.price ≤ p) ∧ ∃ t ∈ v.recent tradeCount, p ≤ t.price

/-! ## What it is -/

variable {v tradeCount}

/-- The trades of a range are in the order of their timestamps, so the reversed ones are sorted. -/
theorem insertionSort_reverse {fromTimestamp toTimestamp : Option Int} {n : Nat} :
    (lastItems n (v.trades fromTimestamp toTimestamp)).reverse.insertionSort
      (fun t t' => -t.timestamp ≤ -t'.timestamp) =
    (lastItems n (v.trades fromTimestamp toTimestamp)).reverse := by
  refine List.Pairwise.insertionSort_eq (List.pairwise_reverse.mpr ?_)
  have hsub : (lastItems n (v.trades fromTimestamp toTimestamp)).Sublist
      (v.trades fromTimestamp toTimestamp) := by
    unfold lastItems
    split
    · exact List.Sublist.refl _
    · exact List.drop_sublist _ _
  refine (trades_sorted.sublist hsub).imp fun {t t'} hlt => neg_le_neg ?_
  simp only [Pricing.keyLt, Bool.or_eq_true, Bool.and_eq_true, decide_eq_true_eq] at hlt
  rcases hlt with hlt | ⟨heq, -⟩
  · exact hlt.le
  · exact heq.le

theorem lastItems_eq_nil {α : Type} {n : Nat} {l : List α} (hn : 0 < n) :
    lastItems n l = [] ↔ l = [] := by
  rw [lastItems, if_neg hn.ne', List.drop_eq_nil_iff]
  constructor
  · intro h
    exact List.length_eq_zero_iff.mp (by omega)
  · rintro rfl
    exact Nat.zero_le _

/-- The number of trades is taken for a timestamp, and any trade from it on makes the source
raise. -/
theorem marketPrice_eq (hn : 0 < tradeCount) : v.marketPrice tradeCount =
    if v.trades (some tradeCount) none = [] then .ok none else .error .attributeError := by
  unfold marketPrice
  simp only [List.reverse_eq_nil_iff, lastItems_eq_nil hn, insertionSort_reverse]
  split
  · rfl
  next hne =>
    rw [if_neg (not_not_intro rfl)]
    cases htrades : (lastItems tradeCount (v.trades (some tradeCount) none)).reverse with
    | nil => exact absurd ((lastItems_eq_nil hn).mp (List.reverse_eq_nil_iff.mp htrades)) hne
    | cons t ts => rfl

/-- The source computes the market price exactly when there are no trades. -/
theorem market_price_iff (v : TradesView) (tradeCount : Nat) (hn : 1 ≤ tradeCount) :
    (∃ p, v.marketPrice tradeCount = .ok p ∧ v.IsMarketPrice tradeCount p) ↔
      v.values = [] := by
  rw [marketPrice_eq hn]
  constructor
  · rintro ⟨p, hp, hprice⟩
    split at hp
    · cases hp
      exact hprice
    · cases hp
  · intro hnone
    rw [if_pos (List.subset_nil.mp (hnone ▸ trades_subset))]
    exact ⟨none, rfl, hnone⟩

/-- A node without trades has no market price. -/
theorem no_trades_no_price : ∃ p, empty.marketPrice 20 = .ok p ∧ empty.IsMarketPrice 20 p :=
  (market_price_iff empty 20 (by decide)).mpr rfl

/-- With a trade at the time `50` the call raises, and with one at the time `5` it finds none. -/
theorem market_price_missed : ∃ o : BasicOffer Nat, 0 < o.baseAmount ∧
    (run [.addPending (.offer o), .reportCompleted 7 50]).marketPrice 20 =
      .error .attributeError ∧
    (run [.addPending (.offer o), .reportCompleted 7 5]).marketPrice 20 = .ok none ∧
    (run [.addPending (.offer o), .reportCompleted 7 5]).values = [⟨o, 5⟩] :=
  ⟨{ offerId := 7, type := .buy, baseAmount := 10, quoteAmount := 20, timeoutDate := 100 },
    by decide, by decide +kernel, by decide +kernel, by decide +kernel⟩

end TradesView

end RaidexNode
end Raidex
