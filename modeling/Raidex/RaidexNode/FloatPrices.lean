import Raidex.RaidexNode.Pricing

/-!
# Raidex.RaidexNode.FloatPrices

The book of the node is the one whose prices are `float`s, and so is its matching of an order over
an integer.
-/

namespace Raidex
namespace RaidexNode

instance : Pricing Double where
  quotient := quotient
  product a f := do (← (Number.int a).mulFloat f).truncate

/-! ## The book -/

namespace OfferView

variable {type : OfferType} {v : OfferView type} {entry : OfferBookEntry} {offerId : Nat}

def priced (v : OfferView type) : Pricing.OfferView Double where
  offerEntries := v.offerEntries
  offerEntriesById := v.offerEntriesById

theorem priced_addOffer (ht : entry.offer.type = type) :
    (v.addOffer entry ht).map priced = v.priced.addOffer entry := by
  unfold Pricing.OfferView.addOffer
  show _ = entry.price >>= _
  cases hp : entry.price with
  | error err => rw [addOffer_error hp]; rfl
  | ok price =>
    rw [addOffer_ok hp]
    rfl

theorem priced_removeOffer : (v.removeOffer offerId).map priced = v.priced.removeOffer offerId := by
  have hlookup : v.priced.offerEntriesById.lookup offerId = v.offerEntriesById.lookup offerId := rfl
  unfold removeOffer Pricing.OfferView.removeOffer
  rw [hlookup]
  cases he : v.offerEntriesById.lookup offerId with
  | none => rfl
  | some entry =>
    obtain ⟨price, hp, rfl, hk⟩ := v.indexed _ _ he
    show ((entry.price >>= fun p => _) : Except PyError (OfferView type)).map priced =
      (entry.price >>= fun p => _)
    rw [hp]
    refine (congrArg (Except.map priced) (if_pos hk)).trans (Eq.symm ?_)
    exact if_pos hk

theorem priced_getOffersByPrice (price : Double) :
    v.priced.getOffersByPrice price = v.getOffersByPrice price := rfl

end OfferView

namespace OfferBook

variable {b : OfferBook}

def priced (b : OfferBook) : Pricing.OfferBook Double where
  buys := b.buys.priced
  sells := b.sells.priced

theorem priced_insertOffer (e : OfferBookEntry) :
    (b.insertOffer e).map priced = b.priced.insertOffer e := by
  unfold Pricing.OfferBook.insertOffer
  cases ht : e.offer.type with
  | buy =>
    have hins : b.insertOffer e = do return { b with buys := ← b.buys.addOffer e ht } := by
      unfold insertOffer
      split
      · rfl
      next h => rw [ht] at h; cases h
    rw [hins]
    simp only [priced, ← OfferView.priced_addOffer ht]
    cases b.buys.addOffer e ht <;> rfl
  | sell =>
    have hins : b.insertOffer e = do return { b with sells := ← b.sells.addOffer e ht } := by
      unfold insertOffer
      split
      next h => rw [ht] at h; cases h
      · rfl
    rw [hins]
    simp only [priced, ← OfferView.priced_addOffer ht]
    cases b.sells.addOffer e ht <;> rfl

theorem priced_removeOffer (offerId : Nat) :
    (b.removeOffer offerId).map priced = b.priced.removeOffer offerId := by
  unfold removeOffer Pricing.OfferBook.removeOffer
  simp only [priced, ← OfferView.priced_removeOffer]
  show _ = if offerId ∈ b.buys.offerEntriesById then _
    else if offerId ∈ b.sells.offerEntriesById then _ else _
  split
  · cases b.buys.removeOffer offerId <;> rfl
  split
  · cases b.sells.removeOffer offerId <;> rfl
  · rfl

theorem priced_step (op : BookOp) : (b.step op).priced = b.priced.step op := by
  cases op with
  | insert e =>
    rw [step, Pricing.OfferBook.step, ← priced_insertOffer]
    cases b.insertOffer e <;> rfl
  | remove offerId =>
    rw [step, Pricing.OfferBook.step, ← priced_removeOffer]
    cases b.removeOffer offerId <;> rfl

/-- A book that insertions and removals lead to is such a book over `float`s. -/
theorem priced_run (ops : List BookOp) : (run ops).priced = Pricing.OfferBook.run ops := by
  induction ops using List.reverseRecOn with
  | nil => rfl
  | append_singleton ops op ih =>
    rw [run, LTS.run_concat, priced_step]
    show (run ops).priced.step op = _
    rw [ih, Pricing.OfferBook.run, Pricing.OfferBook.run, LTS.run_concat]

theorem priced_opposite (price : Double) (type : OfferType) :
    b.priced.getOffersByPrice price type = b.getOffersByPrice price type := by
  cases type with
  | buy => exact OfferView.priced_getOffersByPrice price
  | sell => exact OfferView.priced_getOffersByPrice price

end OfferBook

/-! ## Orders over an integer -/

theorem le_int (a b : Int) : Number.le (.int a) (.int b) = decide (a ≤ b) := by
  rw [Bool.eq_iff_iff, decide_eq_true_iff]
  exact Int.isLE_compare

theorem positive_int (a : Int) : (Number.int a).positive = decide (0 < a) := by
  rw [Bool.eq_iff_iff, decide_eq_true_iff, ← Int.compare_eq_gt]
  simp [Number.positive, Number.compare]

theorem takeFitting_int (entries : List OfferBookEntry) (a : Int) :
    takeFitting entries (.int a) = .ok ((Pricing.takeFitting entries a).1,
      .int (Pricing.takeFitting entries a).2) := by
  induction entries generalizing a with
  | nil => rfl
  | cons e entries ih =>
    unfold takeFitting Pricing.takeFitting
    simp only [le_int, decide_eq_true_eq]
    split
    · show (takeFitting entries (.int (a - e.baseAmount)) >>= _) = _
      rw [ih]
      rfl
    · exact ih a

theorem matchLimit_int (b : OfferBook) (price : Double) (type : OfferType) (a : Int) :
    matchLimit b price type (.int a) =
      .ok ((Pricing.matchLimit b.priced price type a).1,
        .int (Pricing.matchLimit b.priced price type a).2) := by
  rw [matchLimit, takeFitting_int, Pricing.matchLimit, OfferBook.priced_opposite]

end RaidexNode
end Raidex
