import Raidex.RaidexNode.BookIndex
import Raidex.RoundedNumber

/-!
# Raidex.RaidexNode.Matching

The matching of a limit order with the book of the node, whose prices are `float`s. The amount of
the order is an `int` or a `float`.

* `isNumber_price`: the prices of offers compare with each other.
* `OfferView.Ascending`: the prices of the entries do not fall, so the loop that stops early misses
  no entry.
* `takeFitting_left`, `takeFitting_exact`: what is left of the amount, as subtraction rounds it and
  where it does not.
* `match_limit_fills`: matching is a maximal fill of the order.
-/

namespace Raidex
namespace RaidexNode

open Binary64 (IsNumber)

/-! ## Prices -/

/-- A price is a quotient of finite `float`s, and not by zero. -/
theorem isNumber_quotient {a b : ℤ} {p : Double} (h : quotient a b = .ok p) : IsNumber p := by
  obtain ⟨f, hf, h⟩ := Except.bind_eq_ok.mp h
  obtain ⟨g, hg, h⟩ := Except.bind_eq_ok.mp h
  obtain ⟨rfl, hfinf⟩ := Double.ofInt_eq_ok hf
  obtain ⟨rfl, hginf⟩ := Double.ofInt_eq_ok hg
  obtain ⟨x, hx⟩ := Binary64.value_of_isNumber (Binary64.isNumber_ofInt a) hfinf
  obtain ⟨y, hy⟩ := Binary64.value_of_isNumber (Binary64.isNumber_ofInt b) hginf
  unfold Double.divide at h
  split at h
  · cases h
  next hne =>
    cases h
    refine Binary64.isNumber_div hx hy ?_
    rintro rfl
    exact hne (Binary64.beq_zero_of_value hy)

theorem isNumber_price {e : OfferBookEntry} {p : Double} (h : e.price = .ok p) : IsNumber p :=
  isNumber_quotient h

/-! ## The order of the entries -/

namespace OfferView

variable {type : OfferType} {v : OfferView type} {entry : OfferBookEntry} {price : Double}

/-- No entry has a lower price than one before it. -/
def Ascending (v : OfferView type) : Prop :=
  v.offerEntries.Pairwise fun x y => ¬ y.1.1 < x.1.1

theorem isNumber_key {x : EntryKey × OfferBookEntry} (h : x ∈ v.offerEntries) : IsNumber x.1.1 :=
  isNumber_price (v.keyed x.1 x.2 h).1

theorem ascending_empty : (empty : OfferView type).Ascending := List.Pairwise.nil

theorem Ascending.insert (h : v.Ascending) (hp : entry.price = .ok price)
    (ht : entry.offer.type = type) : (v.insert entry price hp ht).Ascending := by
  have hprice := isNumber_price hp
  refine SortedDict.pairwise_set (R := fun k l : EntryKey => ¬ l.1 < k.1) ?_ ?_ ?_ h
  · intro x hx hlt
    simp only [keyLt, Bool.or_eq_true, Bool.and_eq_true, decide_eq_true_eq] at hlt
    rcases hlt with hlt | ⟨heq, -⟩
    · exact hprice.lt_asymm (isNumber_key hx) hlt
    · rw [← heq]
      exact hprice.lt_irrefl
  · intro x _ _ hlt hbelow
    simp [keyLt, hbelow] at hlt
  · intro x hx y hy
    exact hprice.not_lt_trans (isNumber_key hx) (isNumber_key hy)

theorem Ascending.erase (h : v.Ascending) (key : EntryKey) : (v.erase key).Ascending :=
  List.Pairwise.filter _ h

/-- The loop that stops at a higher price finds every entry with the price. -/
theorem Ascending.getOffersByPrice (h : v.Ascending) (price : Double) :
    v.getOffersByPrice price = v.values.filter fun e => e.price = .ok price := by
  have hscan : SortedDict.scan (fun x => x.1.1 = price) (fun x => price < x.1.1) v.offerEntries =
      v.offerEntries.filter fun x => x.1.1 = price := by
    refine SortedDict.scan_eq_filter _ _ (h.imp fun {x y} hxy hstop => ?_)
    rw [decide_eq_true_eq] at hstop
    rw [decide_eq_false_iff_not]
    rintro rfl
    exact hxy hstop
  rw [OfferView.getOffersByPrice, hscan, values, List.filter_map]
  refine congrArg _ (List.filter_congr fun x hx => ?_)
  simp [(v.keyed x.1 x.2 hx).1]

end OfferView

namespace OfferBook

variable {b b' : OfferBook} {entry : OfferBookEntry} {offerId : Nat}

structure Ascending (b : OfferBook) : Prop where
  buys : b.buys.Ascending
  sells : b.sells.Ascending

theorem Ascending.insertOffer (h : b.Ascending) (hins : b.insertOffer entry = .ok b') :
    b'.Ascending := by
  cases hp : entry.price with
  | error err => rw [insertOffer_error hp] at hins; cases hins
  | ok price =>
    cases ht : entry.offer.type with
    | buy =>
      rw [insertOffer_buy hp ht] at hins
      cases hins
      exact ⟨h.buys.insert hp ht, h.sells⟩
    | sell =>
      rw [insertOffer_sell hp ht] at hins
      cases hins
      exact ⟨h.buys, h.sells.insert hp ht⟩

theorem Ascending.removeOffer (h : b.Ascending) (hrem : b.removeOffer offerId = .ok b') :
    b'.Ascending := by
  unfold OfferBook.removeOffer at hrem
  split at hrem
  next hb =>
    obtain ⟨p, hp⟩ := OfferView.removeOffer_ok hb
    rw [hp] at hrem
    cases hrem
    exact ⟨h.buys.erase _, h.sells⟩
  split at hrem
  next hs =>
    obtain ⟨p, hp⟩ := OfferView.removeOffer_ok hs
    rw [hp] at hrem
    cases hrem
    exact ⟨h.buys, h.sells.erase _⟩
  · cases hrem

theorem Ascending.step (h : b.Ascending) (op : BookOp) : (b.step op).Ascending := by
  cases op with
  | insert e =>
    rw [OfferBook.step]
    cases hins : b.insertOffer e with
    | ok b' => exact h.insertOffer hins
    | error err => exact h
  | remove offerId =>
    rw [OfferBook.step]
    cases hrem : b.removeOffer offerId with
    | ok b' => exact h.removeOffer hrem
    | error err => exact h

theorem ascending_run (ops : List BookOp) : (run ops).Ascending :=
  LTS.run_invariant OfferBook.step (fun _ b => b.Ascending)
    ⟨OfferView.ascending_empty, OfferView.ascending_empty⟩ (fun _ _ op h => h.step op) ops

/-- The entries of the other type with the price. -/
def candidates (b : OfferBook) (price : Double) (type : OfferType) : List OfferBookEntry :=
  b.values.filter fun e => e.offer.type ≠ type ∧ e.price = .ok price

theorem Ascending.getOffersByPrice (h : b.Ascending) (price : Double) (type : OfferType) :
    b.getOffersByPrice price type = b.candidates price type := by
  have hown {v : OfferView type} : v.values.filter
      (fun e => decide (e.offer.type ≠ type ∧ e.price = .ok price)) = [] := by
    refine List.filter_eq_nil_iff.mpr fun e he hd => ?_
    exact (of_decide_eq_true hd).1 (OfferView.values_type he)
  have hother {type' : OfferType} (v : OfferView type') (hne : type' ≠ type) : v.values.filter
      (fun e => decide (e.offer.type ≠ type ∧ e.price = .ok price)) =
        v.values.filter fun e => e.price = .ok price := by
    refine List.filter_congr fun e he => decide_eq_decide.mpr (and_iff_right ?_)
    rw [OfferView.values_type he]
    exact hne
  unfold candidates values
  rw [List.filter_append]
  cases type with
  | buy =>
    rw [hown, hother b.sells (by decide), List.nil_append]
    exact h.sells.getOffersByPrice price
  | sell =>
    rw [hown, hother b.buys (by decide), List.append_nil]
    exact h.buys.getOffersByPrice price

end OfferBook

/-! ## What is left of the amount -/

/-- Subtracting the amounts of the entries one after the other never rounds. -/
def Unrounded : Number → List OfferBookEntry → Prop
  | _, [] => True
  | amountLeft, e :: es => ∃ d, amountLeft.subInt e.baseAmount = .ok d ∧
      d.exact = amountLeft.exact.map (· - (e.baseAmount : ℚ)) ∧ Unrounded d es

theorem unrounded_int (es : List OfferBookEntry) (a : Int) : Unrounded (.int a) es := by
  induction es generalizing a with
  | nil => trivial
  | cons e es ih => exact ⟨_, rfl, by simp [Number.exact], ih _⟩

section

variable {entries taken : List OfferBookEntry} {amount rest : Number}

/-- What is left is the amount less those of the taken entries, in the arithmetic of `Number`. -/
theorem takeFitting_left (h : takeFitting entries amount = .ok (taken, rest)) :
    taken.foldlM (fun amountLeft e => amountLeft.subInt e.baseAmount) amount = .ok rest := by
  induction entries generalizing amount taken with
  | nil => cases h; rfl
  | cons e entries ih =>
    unfold takeFitting at h
    split at h
    · obtain ⟨d, hd, h⟩ := Except.bind_eq_ok.mp h
      obtain ⟨x, hx, h⟩ := Except.bind_eq_ok.mp h
      cases h
      exact Except.bind_eq_ok.mpr ⟨d, hd, ih hx⟩
    · exact ih h

/-- What is taken and what is left add up to the amount. -/
theorem takeFitting_exact (h : takeFitting entries amount = .ok (taken, rest)) {q : ℚ}
    (hq : amount.exact = some q) (hnonneg : 0 ≤ q) (hexact : Unrounded amount taken) :
    ∃ p, rest.exact = some p ∧ 0 ≤ p ∧ (taken.map fun e => (e.baseAmount : ℚ)).sum + p = q := by
  induction entries generalizing amount taken q with
  | nil => cases h; exact ⟨q, hq, hnonneg, by simp⟩
  | cons e entries ih =>
    unfold takeFitting at h
    split at h
    next hle =>
      obtain ⟨d, hd, h⟩ := Except.bind_eq_ok.mp h
      obtain ⟨⟨taken', rest'⟩, hx, h⟩ := Except.bind_eq_ok.mp h
      cases h
      obtain ⟨d', hd', hdq, hexact⟩ := hexact
      cases hd.symm.trans hd'
      rw [hq] at hdq
      have hfits : (e.baseAmount : ℚ) ≤ q := (Number.le_exact hq).mp hle
      obtain ⟨p, hp, hpos, hsum⟩ := ih hx hdq (sub_nonneg.mpr hfits) hexact
      exact ⟨p, hp, hpos, by rw [List.map_cons, List.sum_cons, add_assoc, hsum, add_sub_cancel]⟩
    next => exact ih h hq hnonneg hexact

/-- What is left is not negative, and no integer fits that did not fit before. So an entry that is
not taken fits even less in the end. -/
theorem takeFitting_fits (h : takeFitting entries amount = .ok (taken, rest))
    (hnonneg : Number.le (.int 0) amount = true) : Number.le (.int 0) rest = true ∧
      (∀ n, Number.le (.int n) rest = true → Number.le (.int n) amount = true) ∧
      ∀ e ∈ entries, e ∉ taken → Number.le (.int e.baseAmount) rest = false := by
  induction entries generalizing amount taken with
  | nil =>
    cases h
    exact ⟨hnonneg, fun _ => id, fun e he => absurd he List.not_mem_nil⟩
  | cons e entries ih =>
    unfold takeFitting at h
    split at h
    next hfits =>
      obtain ⟨d, hd, h⟩ := Except.bind_eq_ok.mp h
      obtain ⟨⟨taken', rest'⟩, hx, h⟩ := Except.bind_eq_ok.mp h
      cases h
      obtain ⟨hpos, hle⟩ := Number.subInt_le hfits hd
      obtain ⟨hrest, hless, hmax⟩ := ih hx hpos
      refine ⟨hrest, fun n hn => hle n (hless n hn), fun e' he' hnot => ?_⟩
      rw [List.mem_cons, not_or] at hnot
      exact hmax e' ((List.mem_cons.mp he').resolve_left hnot.1) hnot.2
    next hfits =>
      obtain ⟨hrest, hless, hmax⟩ := ih h hnonneg
      refine ⟨hrest, hless, fun e' he' hnot => ?_⟩
      rcases List.mem_cons.mp he' with rfl | he'
      · exact Bool.eq_false_iff.mpr fun hle => hfits (hless _ hle)
      · exact hmax e' he' hnot

end

/-! ## Matching -/

/-- The taken entries are distinct candidates, the amount is accounted for as far as subtraction
does not round, and no further candidate fits. -/
structure Fills (candidates : List OfferBookEntry) (amount : Number) (taken : List OfferBookEntry)
    (amountLeft : Number) : Prop where
  among : ∀ e ∈ taken, e ∈ candidates
  distinct : (taken.map OfferBookEntry.offerId).Nodup
  left : taken.foldlM (fun amountLeft e => amountLeft.subInt e.baseAmount) amount = .ok amountLeft
  accounted : Unrounded amount taken → ∀ q, amount.exact = some q →
    ∃ p, amountLeft.exact = some p ∧ (taken.map fun e => (e.baseAmount : ℚ)).sum + p = q
  integral : ∀ a, amount = .int a → Unrounded amount taken
  nonneg : Number.le (.int 0) amountLeft = true
  maximal : ∀ e ∈ candidates, e ∉ taken → Number.lt amountLeft (.int e.baseAmount) = true

/-- In every book that insertions and removals lead to, `match_limit` looks at exactly the entries
of the opposite side with the price of the order, and fills the order with them. -/
theorem match_limit_fills (ops : List BookOp) (price : Double) (type : OfferType) (amount : Number)
    (h : Number.le (.int 0) amount = true) :
    (OfferBook.run ops).getOffersByPrice price type = (OfferBook.run ops).candidates price type ∧
    ∃ taken amountLeft,
      matchLimit (OfferBook.run ops) price type amount = .ok (taken, amountLeft) ∧
      Fills ((OfferBook.run ops).candidates price type) amount taken amountLeft := by
  have hcandidates := (OfferBook.ascending_run ops).getOffersByPrice price type
  obtain ⟨taken, amountLeft, hmatch⟩ := matchLimit_ok (OfferBook.run ops) price type amount
  obtain ⟨hnonneg, -, hmax⟩ := takeFitting_fits hmatch h
  have hperm := List.perm_insertionSort (fun a b : OfferBookEntry => b.baseAmount ≤ a.baseAmount)
    ((OfferBook.run ops).getOffersByPrice price type)
  rw [hcandidates] at hperm hmax
  refine ⟨hcandidates, taken, amountLeft, hmatch, ?_, matchLimit_nodup hmatch,
    takeFitting_left hmatch, ?_, ?_, hnonneg, ?_⟩
  · intro e he
    have hmem := (takeFitting_sublist hmatch).subset he
    rw [hcandidates] at hmem
    exact hperm.mem_iff.mp hmem
  · intro hexact q hq
    have hq0 : 0 ≤ q := by simpa using (Number.le_exact hq).mp h
    obtain ⟨p, hp, -, hsum⟩ := takeFitting_exact hmatch hq hq0 hexact
    exact ⟨p, hp, hsum⟩
  · rintro a rfl
    exact unrounded_int taken a
  · intro e he hnot
    exact Number.lt_of_not_le hnonneg (hmax e (hperm.mem_iff.mpr he) hnot)

/-- A `BUY` of `15` at the price `2` takes a `SELL` of `10` for `20` and leaves `5`. -/
theorem ghost_filled : ∃ taken amountLeft,
    matchLimit (OfferBook.run [.insert (OfferBook.ghost 20)]) (Float.Model.ofInt 2) .buy (.int 15) =
      .ok (taken, amountLeft) ∧
    taken.map OfferBookEntry.baseAmount = [10] ∧ amountLeft = .int 5 ∧
    Fills ((OfferBook.run [.insert (OfferBook.ghost 20)]).candidates (Float.Model.ofInt 2) .buy)
      (.int 15) taken amountLeft := by
  obtain ⟨-, taken, amountLeft, hmatch, hfills⟩ :=
    match_limit_fills [.insert (OfferBook.ghost 20)] (Float.Model.ofInt 2) .buy (.int 15)
      (by decide)
  have hrun : (matchLimit (OfferBook.run [.insert (OfferBook.ghost 20)]) (Float.Model.ofInt 2) .buy
      (.int 15)).toOption.map (fun x => (x.1.map OfferBookEntry.baseAmount, x.2)) =
        some ([10], .int 5) := by decide +kernel
  rw [hmatch] at hrun
  obtain ⟨htaken, hleft⟩ := Prod.mk.inj (Option.some.inj hrun)
  exact ⟨taken, amountLeft, hmatch, htaken, hleft, hfills⟩

/-- Of `2 ^ 54 + 12` as a `float`, `10` are taken and `2 ^ 54` are left. -/
theorem float_fill_rounded :
    Number.exact (.float (Float.Model.ofInt (2 ^ 54 + 12))) = some (2 ^ 54 + 12) ∧
    (matchLimit (OfferBook.run [.insert (OfferBook.ghost 20)]) (Float.Model.ofInt 2) .buy
      (.float (Float.Model.ofInt (2 ^ 54 + 12)))).toOption.map
        (fun x => (x.1.map OfferBookEntry.baseAmount, x.2.exact)) = some ([10], some (2 ^ 54)) := by
  decide +kernel

end RaidexNode
end Raidex
