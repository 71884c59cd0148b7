import Raidex.RaidexNode.Pricing
import Raidex.RaidexNode.TradeTerms

/-!
# Raidex.RaidexNode.ExactPrices

Orders and offers with exact prices: what the conversion of `amount * price` to an integer does.

* `truncate_eq_iff`: the conversion keeps a product exactly when it is an integer.
* `orders_meet_iff`: an order meets the opposite one on another node exactly then.
* `price_respected_iff`: a sell order is offered at its price exactly then.
-/

namespace Raidex
namespace RaidexNode

/-- The user gives at most the price `p` for a base token, and gets at least as much. -/
def Respects (type : OfferType) (p : ℚ) (o : BasicOffer Number) : Prop :=
  ∃ base quote : ℤ, o.baseAmount = .int base ∧ o.quoteAmount = .int quote ∧
    match type with
    | .buy => (quote : ℚ) ≤ p * base
    | .sell => p * base ≤ (quote : ℚ) ∧ 0 < quote

/-- The amount of an order and its price have an integer product. -/
def Whole (amount : ℤ) (p : ℚ) : Prop := ∃ n : ℤ, (amount : ℚ) * p = n

/-! ## Truncation -/

section

variable {q p : ℚ}

theorem truncate_of_nonneg (h : 0 ≤ q) : truncate q = ⌊q⌋ := if_pos h

theorem truncate_le (h : 0 ≤ q) : (truncate q : ℚ) ≤ q := by
  rw [truncate_of_nonneg h]
  exact Int.floor_le q

theorem truncate_eq_iff (h : 0 ≤ q) : (truncate q : ℚ) = q ↔ ∃ n : ℤ, q = n := by
  rw [truncate_of_nonneg h]
  constructor
  · exact fun heq => ⟨⌊q⌋, heq.symm⟩
  · rintro ⟨n, rfl⟩
    rw [Int.floor_intCast]

variable {e : OfferBookEntry}

/-- The price of an entry is the quotient of its amounts. -/
theorem price_eq_ok : Pricing.price e = .ok p ↔
    e.offer.baseAmount ≠ 0 ∧ (e.offer.quoteAmount : ℚ) = p * e.offer.baseAmount := by
  unfold Pricing.price Pricing.quotient instPricingRat
  simp only [Nat.cast_eq_zero, Int.cast_natCast]
  split
  next hzero => exact iff_of_false nofun fun h => h.1 hzero
  next hne =>
    have hq : (e.offer.baseAmount : ℚ) ≠ 0 := Nat.cast_ne_zero.mpr hne
    rw [Except.ok.injEq, div_eq_iff hq, and_iff_right hne]

end

/-! ## Orders that meet -/

def OfferType.opposite : OfferType → OfferType
  | .buy => .sell
  | .sell => .buy

namespace Pricing

variable {p : ℚ} {a : ℤ} {type : OfferType}

/-- An order without a matching entry is offered as it is. -/
theorem offersOf_unmatched {order : LimitOrder ℚ} {book : OfferBook ℚ} (ha : 0 < order.amount)
    (h : book.getOffersByPrice order.price order.orderType = []) (offerId timeoutDate : Nat) :
    offersOf order book offerId timeoutDate = .ok [{
      offerId := offerId, type := order.orderType, baseAmount := .int order.amount
      quoteAmount := .int (truncate (order.amount * order.price)),
      timeoutDate := timeoutDate }] := by
  have hmatch : matchLimit book order.price order.orderType order.amount = ([], order.amount) := by
    rw [matchLimit, h]; rfl
  simp only [offersOf, hmatch, if_pos ha]
  rfl

/-- An empty book with one entry. -/
theorem insertOffer_empty {e : OfferBookEntry} (he : e.offer.baseAmount ≠ 0) :
    ∃ b : OfferBook ℚ, OfferBook.empty.insertOffer e = .ok b ∧
      ∀ p, b.getOffersByPrice p e.offer.type.opposite =
        if price e = .ok p then [e] else [] := by
  obtain ⟨q, hq⟩ : ∃ q : ℚ, price e = .ok q :=
    ⟨e.offer.quoteAmount / e.offer.baseAmount, price_eq_ok.mpr ⟨he, by
      rw [div_mul_cancel₀]; exact Nat.cast_ne_zero.mpr he⟩⟩
  let v : OfferView ℚ := { offerEntries := [((q, e.offerId), e)]
                           offerEntriesById := (∅ : Dict Nat OfferBookEntry).insert e.offerId e }
  have hadd : OfferView.empty.addOffer e = .ok v := by
    rw [OfferView.addOffer, hq]; rfl
  have hget (p : ℚ) : v.getOffersByPrice p = if price e = .ok p then [e] else [] := by
    rw [hq]
    by_cases hqp : q = p
    · simp [v, OfferView.getOffersByPrice, SortedDict.scan, hqp]
    · simp [v, OfferView.getOffersByPrice, SortedDict.scan, hqp]
  unfold OfferBook.insertOffer
  cases ht : e.offer.type with
  | buy => exact ⟨{ buys := v, sells := .empty }, by simp only [OfferBook.empty, hadd]; rfl, hget⟩
  | sell => exact ⟨{ buys := .empty, sells := v }, by simp only [OfferBook.empty, hadd]; rfl, hget⟩

/-- The only entry of a book is taken by an order over its amount at its price. -/
theorem matchLimit_single {b : OfferBook ℚ} {e : OfferBookEntry}
    (hget : b.getOffersByPrice p type = if price e = .ok p then [e] else [])
    (hbase : (e.offer.baseAmount : ℤ) = a) :
    matchLimit b p type a = ([e], 0) ↔ price e = .ok p := by
  rw [matchLimit, hget]
  split
  next hp =>
    refine iff_of_true ?_ hp
    subst hbase
    show takeFitting [e] (e.offer.baseAmount : ℤ) = ([e], 0)
    simp [takeFitting, OfferBookEntry.baseAmount]
  next hp => exact iff_of_false (by simp [takeFitting]) hp

end Pricing

/-- The quote amount of an offer for the whole order gives back its price exactly when it is not
rounded. -/
theorem price_truncated {e : OfferBookEntry} {a : ℤ} {p : ℚ} (ha : 0 < a) (hp : 0 < p)
    (hbase : (e.offer.baseAmount : ℤ) = a)
    (hquote : (e.offer.quoteAmount : ℤ) = truncate (a * p)) :
    Pricing.price e = .ok p ↔ Whole a p := by
  have hne : e.offer.baseAmount ≠ 0 := by omega
  have hbase' : (e.offer.baseAmount : ℚ) = a := by rw [← hbase, Int.cast_natCast]
  have hquote' : (e.offer.quoteAmount : ℚ) = truncate (a * p) := by rw [← hquote, Int.cast_natCast]
  have hpos : 0 ≤ (a : ℚ) * p := (mul_pos (Int.cast_pos.mpr ha) hp).le
  rw [price_eq_ok, and_iff_right hne, hbase', hquote', mul_comm p, truncate_eq_iff hpos, Whole]

/-- One node has no match for an order over `a` at the price `p`, and offers all of it. The other
node, with an empty book, gets the offer and then the opposite order. The two orders meet exactly
when `a * p` is an integer. -/
theorem orders_meet_iff (C : Crypto) (sign : Hash → Signature) (maker : Address)
    (hsign : ∀ h, C.recover (sign h) h = some maker) (market : TokenPair)
    (hmarket : market.baseToken ≠ market.quoteToken) (type : OfferType) (a : ℤ) (p : ℚ)
    (ha : 0 < a) (hp : 0 < p) (book : Pricing.OfferBook ℚ)
    (hbook : book.getOffersByPrice p type = []) (offerId timeoutDate : Nat)
    (offers : List (BasicOffer Number))
    (hoffers : Pricing.offersOf { orderType := type, amount := a, price := p } book offerId
      timeoutDate = .ok offers)
    (proof : CommitmentProof) (m : ProvenOffer)
    (hm : ∃ o ∈ offers, provenOfferMsg C sign o proof market = some m) :
    ∃ e b, ProvenOffer.toEntry C market m = some e ∧ offers = [e.takeOffer] ∧
      Pricing.OfferBook.empty.insertOffer e = .ok b ∧
      (Pricing.matchLimit b p type.opposite a = ([e], 0) ↔ Whole a p) := by
  rw [Pricing.offersOf_unmatched ha hbook] at hoffers
  cases hoffers
  obtain ⟨o, ho, hm⟩ := hm
  obtain rfl := List.mem_singleton.mp ho
  obtain ⟨e, hentry, hcopy, -, -⟩ := toEntry_provenOfferMsg hsign hmarket hm
  obtain ⟨-, htype, hbase, hquote, -⟩ := BasicOffer.mk.inj hcopy
  have hbase : (e.offer.baseAmount : ℤ) = a := Number.int.inj hbase
  have hquote : (e.offer.quoteAmount : ℤ) = truncate (a * p) := Number.int.inj hquote
  have htype : e.offer.type = type := htype
  obtain ⟨b, hins, hget⟩ := Pricing.insertOffer_empty (e := e) (by omega)
  refine ⟨e, b, hentry, by rw [hcopy], hins, ?_⟩
  rw [← price_truncated ha hp hbase hquote, ← htype]
  exact Pricing.matchLimit_single (hget p) hbase

/-- The message of a `SELL` of `10` for `quote`, offered by address `4`. -/
def sellMessage (quote : Nat) : ProvenOffer where
  offer := { askToken := 2, askAmount := quote, bidToken := 1, bidAmount := 10, offerId := 7,
             timeout := 100 }
  commitmentProof := soldProof
  signature := some 4

/-- At the price `2` both orders are for `10` and `20`. -/
theorem two_orders_meet : ∃ e b,
    ProvenOffer.toEntry .plain { baseToken := 1, quoteToken := 2 } (sellMessage 20) = some e ∧
    Pricing.OfferBook.empty.insertOffer e = .ok b ∧
    Pricing.matchLimit b (2 : ℚ) .buy (10 : ℤ) = ([e], 0) := by
  have hsign (h : Hash) : Crypto.plain.recover 4 h = some 4 := by
    show some ((4 : Signature).setWidth 160) = some 4
    decide +kernel
  obtain ⟨e, b, hentry, -, hins, hmeet⟩ := orders_meet_iff .plain (fun _ => 4) 4 hsign
    { baseToken := 1, quoteToken := 2 } (by decide) .sell 10 2 (by decide) (by decide) .empty rfl
    7 100 [{ offerId := 7, type := .sell, baseAmount := .int 10, quoteAmount := .int 20
             timeoutDate := 100 }] (by decide +kernel) soldProof (sellMessage 20)
    ⟨_, List.mem_singleton_self _, by decide +kernel⟩
  exact ⟨e, b, hentry, hins, hmeet.mpr ⟨20, by norm_num⟩⟩

/-- At the price `1/3` the offer is for `10` and `3`, and the opposite order does not take it. -/
theorem third_not_met : ∃ (o : BasicOffer Number) (e : OfferBookEntry) (b : Pricing.OfferBook ℚ),
    Pricing.offersOf { orderType := .sell, amount := 10, price := (1 / 3 : ℚ) } .empty 7 100 =
      .ok [o] ∧
    provenOfferMsg .plain (fun _ => 4) o soldProof { baseToken := 1, quoteToken := 2 } =
      some (sellMessage 3) ∧
    ProvenOffer.toEntry .plain { baseToken := 1, quoteToken := 2 } (sellMessage 3) = some e ∧
    Pricing.OfferBook.empty.insertOffer e = .ok b ∧
    (Pricing.matchLimit b (1 / 3) .buy (10 : ℤ)).1.length = 0 ∧
    (Pricing.matchLimit b (1 / 3) .buy (10 : ℤ)).2 = 10 := by
  refine ⟨{ offerId := 7, type := .sell, baseAmount := .int 10, quoteAmount := .int 3
            timeoutDate := 100 }, _, _, ?_, ?_, rfl, rfl, ?_, ?_⟩
  all_goals decide +kernel

/-! ## The price of an order -/

section

variable {p : ℚ} {a b : ℤ}

theorem Whole.add_iff (h : Whole a p) : Whole (a + b) p ↔ Whole b p := by
  obtain ⟨n, hn⟩ := h
  constructor
  · rintro ⟨k, hk⟩
    refine ⟨k - n, ?_⟩
    rw [Int.cast_add, add_mul, hn] at hk
    rw [Int.cast_sub, ← hk, add_sub_cancel_left]
  · rintro ⟨k, hk⟩
    exact ⟨n + k, by rw [Int.cast_add, add_mul, hn, hk, Int.cast_add]⟩

/-- Entries with a price pay an integer for all of their amounts together. -/
theorem whole_sum {taken : List OfferBookEntry} (h : ∀ e ∈ taken, Pricing.price e = .ok p) :
    Whole (taken.map fun e => (e.baseAmount : ℤ)).sum p := by
  induction taken with
  | nil => exact ⟨0, by simp⟩
  | cons e taken ih =>
    obtain ⟨-, hquote⟩ := price_eq_ok.mp (h e (List.mem_cons_self ..))
    have he : Whole (e.baseAmount : ℤ) p :=
      ⟨e.offer.quoteAmount, by rw [Int.cast_natCast, Int.cast_natCast, hquote, mul_comm]; rfl⟩
    rw [List.map_cons, List.sum_cons, he.add_iff]
    exact ih fun e he => h e (List.mem_cons_of_mem _ he)

/-- An offer that is taken has the price of the order. -/
theorem respects_takeOffer {e : OfferBookEntry} (type : OfferType) (hp : 0 < p)
    (h : Pricing.price e = .ok p) : Respects type p e.takeOffer := by
  obtain ⟨hne, hquote⟩ := price_eq_ok.mp h
  refine ⟨e.offer.baseAmount, e.offer.quoteAmount, rfl, rfl, ?_⟩
  rw [Int.cast_natCast, Int.cast_natCast, hquote]
  cases type with
  | buy => exact le_rfl
  | sell =>
    refine ⟨le_rfl, Int.natCast_pos.mpr (Nat.cast_pos (α := ℚ).mp ?_)⟩
    rw [hquote]
    exact mul_pos hp (Nat.cast_pos.mpr (Nat.pos_of_ne_zero hne))

/-- The offer for the rest is rounded in favour of a buyer. -/
theorem respects_rest {o : BasicOffer Number} (type : OfferType) (ha : 0 < a) (hp : 0 < p)
    (hbase : o.baseAmount = .int a) (hquote : o.quoteAmount = .int (truncate (a * p))) :
    Respects type p o ↔ type = .buy ∨ Whole a p := by
  have hpos : 0 < (a : ℚ) * p := mul_pos (Int.cast_pos.mpr ha) hp
  constructor
  · rintro ⟨base, quote, hb, hq, hresp⟩
    obtain rfl : a = base := Number.int.inj (hbase.symm.trans hb)
    obtain rfl : truncate (a * p) = quote := Number.int.inj (hquote.symm.trans hq)
    cases type with
    | buy => exact .inl rfl
    | sell =>
      have hle : p * a ≤ truncate (a * p) := hresp.1
      rw [mul_comm p] at hle
      exact .inr ((truncate_eq_iff hpos.le).mp (le_antisymm (truncate_le hpos.le) hle))
  · intro h
    refine ⟨a, truncate (a * p), hbase, hquote, ?_⟩
    cases type with
    | buy => rw [mul_comm p]; exact truncate_le hpos.le
    | sell =>
      have heq := (truncate_eq_iff hpos.le).mpr (h.resolve_left nofun)
      refine ⟨by rw [heq, mul_comm], Int.cast_pos (R := ℚ).mp ?_⟩
      rw [heq]
      exact hpos

end

/-- In every reachable book, the offers that are created for an order respect its price exactly
when the order buys, or its amount at its price is an integer. -/
theorem price_respected_iff (ops : List BookOp) (order : Pricing.LimitOrder ℚ)
    (hamount : 0 < order.amount) (hprice : 0 < order.price) (offerId timeoutDate : Nat) :
    (∃ offers, Pricing.offersOf order (.run ops) offerId timeoutDate = .ok offers ∧
      ∀ o ∈ offers, Respects order.orderType order.price o) ↔
    order.orderType = .buy ∨ Whole order.amount order.price := by
  have hb := Pricing.OfferBook.ordered_run (P := ℚ) ops
  have hfill := hb.fills order.price order.orderType hamount.le
  unfold Pricing.offersOf
  simp only
  set x := Pricing.matchLimit (.run ops) order.price order.orderType order.amount
  have htaken : ∀ e ∈ x.1, Pricing.price e = .ok order.price := by
    intro e he
    have hmem := hfill.among e he
    rw [Pricing.OfferBook.getOffersByPrice,
      (hb.opposite order.orderType).getOffersByPrice] at hmem
    exact of_decide_eq_true (List.mem_filter.mp hmem).2
  have hwhole : Whole order.amount order.price ↔ Whole x.2 order.price := by
    rw [← hfill.accounted, (whole_sum htaken).add_iff]
  have hall : ∀ o ∈ x.1.map OfferBookEntry.takeOffer,
      Respects order.orderType order.price o := by
    intro o ho
    obtain ⟨e, he, rfl⟩ := List.mem_map.mp ho
    exact respects_takeOffer order.orderType hprice (htaken e he)
  rw [hwhole]
  split
  next hrest =>
    let o : BasicOffer Number :=
      { offerId := offerId, type := order.orderType, baseAmount := .int x.2
        quoteAmount := .int (truncate (x.2 * order.price)), timeoutDate := timeoutDate }
    rw [← respects_rest (o := o) order.orderType hrest hprice rfl rfl]
    constructor
    · rintro ⟨offers, ⟨⟩, h⟩
      exact h o (List.mem_append_right _ (List.mem_singleton_self o))
    · intro h
      refine ⟨_, rfl, ?_⟩
      intro o' ho'
      rcases List.mem_append.mp ho' with ho' | ho'
      · exact hall o' ho'
      · exact List.mem_singleton.mp ho' ▸ h
  next hrest =>
    have hzero : x.2 = 0 := le_antisymm (not_lt.mp hrest) hfill.nonneg
    exact iff_of_true ⟨_, rfl, hall⟩ (.inr ⟨0, by rw [hzero]; simp⟩)

/-- A `BUY` of `15` at the price `2` takes the entry of `10` for `20` and offers the rest. -/
theorem buy_at_two : ∃ offers,
    Pricing.offersOf { orderType := .buy, amount := 15, price := (2 : ℚ) }
      (.run [.insert (OfferBook.ghost 20)]) 8 100 = .ok offers ∧
    ∀ o ∈ offers, Respects .buy 2 o :=
  (price_respected_iff [.insert (OfferBook.ghost 20)]
    { orderType := .buy, amount := 15, price := 2 } (by decide) (by decide) 8 100).mpr (.inl rfl)

/-- A `SELL` of `1` at the price `1/2` is offered for nothing. -/
theorem sold_for_nothing : ∃ o,
    Pricing.offersOf { orderType := .sell, amount := 1, price := (1 / 2 : ℚ) } (.run []) 7 100 =
      .ok [o] ∧
    o.baseAmount = .int 1 ∧ o.quoteAmount = .int 0 ∧ ¬ Respects .sell (1 / 2) o := by
  refine ⟨{ offerId := 7, type := .sell, baseAmount := .int 1, quoteAmount := .int 0
            timeoutDate := 100 }, by decide +kernel, rfl, rfl, ?_⟩
  rintro ⟨base, quote, -, hquote, -, hpos⟩
  cases hquote
  exact hpos.false

end RaidexNode
end Raidex
