import Mathlib.Algebra.BigOperators.Group.List.Basic
import Mathlib.Algebra.Order.Floor.Ring
import Mathlib.Data.Rat.Floor
import Raidex.Lib.SortedDict
import Raidex.RaidexNode.BookIndex
import Raidex.RaidexNode.DataManager

/-!
# Raidex.RaidexNode.Pricing

The offer book and the matching over any kind of prices: `Pricing` is the arithmetic that the
source does with them. The prices of the node are `float`s; exact ones are rational numbers.

* `OfferView`, `OfferBook`, `matchLimit`, `makeOffer`: the functions of the source.
* `OfferView.Ordered`: the entries are in the order of their keys, each under its own price.
* `OfferView.Ordered.getOffersByPrice`: the loop that stops early misses no entry.
* `OfferBook.Ordered.fills`: in exact arithmetic matching is a maximal fill of the order.
-/

namespace Raidex
namespace RaidexNode

class Pricing (P : Type) where
  /-- `float(quote_amount) / base_amount` -/
  quotient : Int → Int → Except PyError P
  /-- `int(amount * price)` -/
  product : Int → P → Except PyError Int

/-- `int(q)` rounds towards zero. -/
def truncate (q : ℚ) : ℤ := if 0 ≤ q then ⌊q⌋ else ⌈q⌉

instance : Pricing ℚ where
  quotient a b := if b = 0 then .error .zeroDivisionError else .ok (a / b)
  product a p := .ok (truncate (a * p))

namespace Pricing

/-- `price`, of an offer from a message. -/
def offerPrice {P : Type} [Pricing P] (o : BasicOffer Nat) : Except PyError P :=
  quotient o.quoteAmount o.baseAmount

def price {P : Type} [Pricing P] (e : OfferBookEntry) : Except PyError P :=
  quotient e.offer.quoteAmount e.offer.baseAmount

/-! ## The book -/

abbrev EntryKey (P : Type) := P × Nat

structure OfferView (P : Type) where
  offerEntries : List (EntryKey P × OfferBookEntry)
  offerEntriesById : Dict Nat OfferBookEntry

structure OfferBook (P : Type) where
  buys : OfferView P
  sells : OfferView P

section

variable {P : Type} [LT P] [DecidableLT P] [DecidableEq P]

/-- Tuples are compared lexicographically. -/
def keyLt (k l : EntryKey P) : Bool := k.1 < l.1 || k.1 = l.1 && k.2 < l.2

namespace OfferView

def empty : OfferView P where
  offerEntries := []
  offerEntriesById := ∅

def values (v : OfferView P) : List OfferBookEntry := v.offerEntries.map Prod.snd

def addOffer [Pricing P] (v : OfferView P) (entry : OfferBookEntry) :
    Except PyError (OfferView P) := do
  let price ← price entry
  return { offerEntries := SortedDict.set keyLt (price, entry.offerId) entry v.offerEntries
           offerEntriesById := v.offerEntriesById.insert entry.offerId entry }

def removeOffer [Pricing P] (v : OfferView P) (offerId : Nat) : Except PyError (OfferView P) :=
  match v.offerEntriesById.lookup offerId with
  | none => .ok v
  | some entry => do
    let key : EntryKey P := (← price entry, entry.offerId)
    if key ∈ v.offerEntries.map Prod.fst then
      return { offerEntries := SortedDict.del key v.offerEntries
               offerEntriesById := v.offerEntriesById.erase offerId }
    else throw .keyError

/-- The loop breaks after the first entry with a higher price. An entry has the price of its
key. -/
def getOffersByPrice (v : OfferView P) (price : P) : List OfferBookEntry :=
  (SortedDict.scan (fun x => x.1.1 = price) (fun x => price < x.1.1) v.offerEntries).map Prod.snd

end OfferView

namespace OfferBook

def empty : OfferBook P where
  buys := .empty
  sells := .empty

def insertOffer [Pricing P] (b : OfferBook P) (entry : OfferBookEntry) :
    Except PyError (OfferBook P) :=
  match entry.offer.type with
  | .buy => do return { b with buys := ← b.buys.addOffer entry }
  | .sell => do return { b with sells := ← b.sells.addOffer entry }

def removeOffer [Pricing P] (b : OfferBook P) (offerId : Nat) : Except PyError (OfferBook P) :=
  if offerId ∈ b.buys.offerEntriesById then do
    return { b with buys := ← b.buys.removeOffer offerId }
  else if offerId ∈ b.sells.offerEntriesById then do
    return { b with sells := ← b.sells.removeOffer offerId }
  else throw .offerNotFound

/-- The view that an order of the type is matched with. -/
def opposite (b : OfferBook P) : OfferType → OfferView P
  | .sell => b.buys
  | .buy => b.sells

def getOffersByPrice (b : OfferBook P) (price : P) (type : OfferType) : List OfferBookEntry :=
  (b.opposite type).getOffersByPrice price

/-- An operation that raises leaves the book as it is. -/
def step [Pricing P] (b : OfferBook P) : BookOp → OfferBook P
  | .insert e => (b.insertOffer e).toOption.getD b
  | .remove offerId => (b.removeOffer offerId).toOption.getD b

def run [Pricing P] (ops : List BookOp) : OfferBook P := LTS.run step .empty ops

end OfferBook

/-! ## Matching -/

variable {A : Type} [Ring A] [LinearOrder A]

/-- Take the entries that still fit, in the given order. -/
def takeFitting : List OfferBookEntry → A → List OfferBookEntry × A
  | [], amountLeft => ([], amountLeft)
  | entry :: entries, amountLeft =>
    if (entry.baseAmount : A) ≤ amountLeft then
      let x := takeFitting entries (amountLeft - entry.baseAmount)
      (entry :: x.1, x.2)
    else takeFitting entries amountLeft

/-- `match_limit`: the entries with the price of the order, the largest first. -/
def matchLimit (book : OfferBook P) (price : P) (type : OfferType) (amount : A) :
    List OfferBookEntry × A :=
  takeFitting ((book.getOffersByPrice price type).insertionSort
    fun a b => b.baseAmount ≤ a.baseAmount) amount

end

structure LimitOrder (P : Type) where
  orderType : OfferType
  amount : Int
  price : P

section

variable {P : Type} [Pricing P] (order : LimitOrder P)

/-- `create_make_offer` -/
def makeOffer (amountLeft : Int) (offerId timeoutDate : Nat) :
    Except PyError (BasicOffer Number) := do
  return { offerId := offerId, type := order.orderType, baseAmount := .int amountLeft,
           quoteAmount := .int (← product amountLeft order.price), timeoutDate := timeoutDate }

/-- The offers that `process_order` creates: one for each matching entry, and one for the rest
under the id and the date that are drawn for it. -/
def offersOf [LT P] [DecidableLT P] [DecidableEq P] (book : OfferBook P)
    (offerId timeoutDate : Nat) : Except PyError (List (BasicOffer Number)) :=
  let x := matchLimit book order.price order.orderType order.amount
  if 0 < x.2 then do
    return x.1.map OfferBookEntry.takeOffer ++ [← makeOffer order x.2 offerId timeoutDate]
  else return x.1.map OfferBookEntry.takeOffer

end

/-! ## The views of a book -/

section

variable {P : Type} [LinearOrder P]

theorem keyLt_trans {k l m : EntryKey P} (hkl : keyLt k l = true) (hlm : keyLt l m = true) :
    keyLt k m = true := by
  simp only [keyLt, Bool.or_eq_true, Bool.and_eq_true, decide_eq_true_eq] at *
  rcases hkl with hkl | ⟨hkl, hkl'⟩ <;> rcases hlm with hlm | ⟨hlm, hlm'⟩
  · exact .inl (hkl.trans hlm)
  · exact .inl (hlm ▸ hkl)
  · exact .inl (hkl ▸ hlm)
  · exact .inr ⟨hkl.trans hlm, hkl'.trans hlm'⟩

theorem keyLt_total (k l : EntryKey P) : keyLt k l = true ∨ k = l ∨ keyLt l k = true := by
  simp only [keyLt, Bool.or_eq_true, Bool.and_eq_true, decide_eq_true_eq, Prod.ext_iff]
  rcases lt_trichotomy k.1 l.1 with h | h | h
  · exact .inl (.inl h)
  · rcases lt_trichotomy k.2 l.2 with h' | h' | h'
    · exact .inl (.inr ⟨h, h'⟩)
    · exact .inr (.inl ⟨h, h'⟩)
    · exact .inr (.inr (.inr ⟨h.symm, h'⟩))
  · exact .inr (.inr (.inl h))

theorem keyLt_irrefl (k : EntryKey P) : keyLt k k = false := by
  simp [keyLt]

variable [Pricing P]

/-- The entries are in the order of their keys, each under its price and id. -/
structure OfferView.Ordered (v : OfferView P) : Prop where
  sorted : SortedDict.Sorted keyLt v.offerEntries
  keyed : ∀ k e, (k, e) ∈ v.offerEntries → price e = .ok k.1 ∧ e.offerId = k.2

namespace OfferView

variable {v v' : OfferView P} {entry : OfferBookEntry} {offerId : Nat}

theorem ordered_empty : (empty : OfferView P).Ordered where
  sorted := List.Pairwise.nil
  keyed _ _ h := absurd h List.not_mem_nil

theorem Ordered.addOffer (h : v.Ordered) (hadd : v.addOffer entry = .ok v') : v'.Ordered := by
  obtain ⟨p, hp, hv'⟩ := Except.bind_eq_ok.mp hadd
  cases hv'
  refine ⟨h.sorted.set (fun _ _ _ => keyLt_trans) keyLt_total, fun k e hmem => ?_⟩
  rcases SortedDict.mem_set.mp hmem with ⟨rfl, rfl⟩ | ⟨-, hmem⟩
  · exact ⟨hp, rfl⟩
  · exact h.keyed k e hmem

theorem Ordered.removeOffer (h : v.Ordered) (hrem : v.removeOffer offerId = .ok v') :
    v'.Ordered := by
  unfold OfferView.removeOffer at hrem
  split at hrem
  · cases hrem; exact h
  next entry _ =>
    obtain ⟨p, -, hrem⟩ := Except.bind_eq_ok.mp hrem
    simp only at hrem
    split at hrem
    · cases hrem
      exact ⟨h.sorted.del, fun k e hmem => h.keyed k e (SortedDict.mem_del.mp hmem).2⟩
    · cases hrem

/-- The loop that stops at a higher price finds every entry with the price. -/
theorem Ordered.getOffersByPrice (h : v.Ordered) (p : P) :
    v.getOffersByPrice p = v.values.filter fun e => price e = .ok p := by
  have hscan : SortedDict.scan (fun x => x.1.1 = p) (fun x => p < x.1.1) v.offerEntries =
      v.offerEntries.filter fun x => x.1.1 = p := by
    refine SortedDict.scan_eq_filter _ _ (h.sorted.imp fun {x y} hxy hstop => ?_)
    simp only [decide_eq_true_eq, decide_eq_false_iff_not] at hstop ⊢
    rintro rfl
    simp only [keyLt, Bool.or_eq_true, Bool.and_eq_true, decide_eq_true_eq] at hxy
    rcases hxy with hlt | ⟨heq, -⟩
    · exact lt_asymm hstop hlt
    · exact hstop.ne heq.symm
  rw [OfferView.getOffersByPrice, hscan, values, List.filter_map]
  refine congrArg _ (List.filter_congr fun x hx => ?_)
  simp [(h.keyed x.1 x.2 hx).1]

/-- The entries with one price have different ids. -/
theorem Ordered.nodup (h : v.Ordered) (p : P) :
    ((v.getOffersByPrice p).map OfferBookEntry.offerId).Nodup := by
  have hkeys := h.sorted.nodup keyLt_irrefl
  rw [h.getOffersByPrice, values, List.filter_map, List.map_map]
  refine List.Nodup.of_map (fun id => (p, id)) ?_
  rw [List.map_map]
  have hsub : ((v.offerEntries.filter fun x => price x.2 = .ok p).map Prod.fst).Nodup :=
    hkeys.sublist (List.filter_sublist.map _)
  convert hsub using 1
  refine List.map_congr_left ?_
  intro x hx
  obtain ⟨hmem, hprice⟩ := List.mem_filter.mp hx
  obtain ⟨hp, hid⟩ := h.keyed x.1 x.2 hmem
  simp only [Function.comp_apply, decide_eq_true_eq, hp, Except.ok.injEq] at hprice
  simp only [Function.comp_apply, hid, ← hprice]

end OfferView

structure OfferBook.Ordered (b : OfferBook P) : Prop where
  buys : b.buys.Ordered
  sells : b.sells.Ordered

namespace OfferBook

variable {b b' : OfferBook P} {entry : OfferBookEntry} {offerId : Nat}

theorem Ordered.opposite (h : b.Ordered) (type : OfferType) : (b.opposite type).Ordered := by
  cases type with
  | buy => exact h.sells
  | sell => exact h.buys

theorem Ordered.insertOffer (h : b.Ordered) (hins : b.insertOffer entry = .ok b') :
    b'.Ordered := by
  unfold OfferBook.insertOffer at hins
  split at hins
  all_goals
    obtain ⟨v, hv, hb'⟩ := Except.bind_eq_ok.mp hins
    cases hb'
  · exact ⟨h.buys.addOffer hv, h.sells⟩
  · exact ⟨h.buys, h.sells.addOffer hv⟩

theorem Ordered.removeOffer (h : b.Ordered) (hrem : b.removeOffer offerId = .ok b') :
    b'.Ordered := by
  unfold OfferBook.removeOffer at hrem
  split at hrem
  · obtain ⟨v, hv, hb'⟩ := Except.bind_eq_ok.mp hrem
    cases hb'
    exact ⟨h.buys.removeOffer hv, h.sells⟩
  split at hrem
  · obtain ⟨v, hv, hb'⟩ := Except.bind_eq_ok.mp hrem
    cases hb'
    exact ⟨h.buys, h.sells.removeOffer hv⟩
  · cases hrem

theorem Ordered.step (h : b.Ordered) (op : BookOp) : (b.step op).Ordered := by
  cases op with
  | insert e =>
    rw [OfferBook.step]
    cases hins : b.insertOffer e with
    | ok b' => exact h.insertOffer hins
    | error err => exact h
  | remove offerId =>
    rw [OfferBook.step]
    cases hrem : b.removeOffer offerId with
    | ok b' => exact h.removeOffer hrem
    | error err => exact h

theorem ordered_run (ops : List BookOp) : (run ops : OfferBook P).Ordered :=
  LTS.run_invariant step (fun _ b => b.Ordered)
    ⟨OfferView.ordered_empty, OfferView.ordered_empty⟩ (fun _ _ op h => h.step op) ops

end OfferBook

end

/-! ## The loop of the matching -/

section

variable {A : Type} [Ring A] [LinearOrder A] {entries : List OfferBookEntry} {amount : A}

theorem takeFitting_sublist : (takeFitting entries amount).1.Sublist entries := by
  induction entries generalizing amount with
  | nil => exact .slnil
  | cons e entries ih =>
    unfold takeFitting
    split
    · exact ih.cons_cons e
    · exact ih.cons e

/-- What is taken and what is left add up to the amount. -/
theorem takeFitting_sum : ((takeFitting entries amount).1.map fun e => (e.baseAmount : A)).sum +
    (takeFitting entries amount).2 = amount := by
  induction entries generalizing amount with
  | nil => simp [takeFitting]
  | cons e entries ih =>
    unfold takeFitting
    split
    · simp only [List.map_cons, List.sum_cons, add_assoc, ih, add_sub_cancel]
    · exact ih

variable [IsStrictOrderedRing A]

theorem takeFitting_nonneg (h : 0 ≤ amount) : 0 ≤ (takeFitting entries amount).2 := by
  induction entries generalizing amount with
  | nil => exact h
  | cons e entries ih =>
    unfold takeFitting
    split
    next hle => exact ih (sub_nonneg.mpr hle)
    next => exact ih h

theorem takeFitting_le : (takeFitting entries amount).2 ≤ amount := by
  induction entries generalizing amount with
  | nil => exact le_rfl
  | cons e entries ih =>
    unfold takeFitting
    split
    · exact ih.trans (sub_le_self _ (Nat.cast_nonneg _))
    · exact ih

/-- An entry that is not taken did not fit, and fits even less in the end. -/
theorem takeFitting_maximal {e : OfferBookEntry} (he : e ∈ entries)
    (hnot : e ∉ (takeFitting entries amount).1) :
    (takeFitting entries amount).2 < (e.baseAmount : A) := by
  induction entries generalizing amount with
  | nil => cases he
  | cons e' entries ih =>
    unfold takeFitting at hnot ⊢
    split
    next hle =>
      rw [if_pos hle, List.mem_cons, not_or] at hnot
      exact ih ((List.mem_cons.mp he).resolve_left hnot.1) hnot.2
    next hlt =>
      rw [if_neg hlt] at hnot
      rcases List.mem_cons.mp he with rfl | he
      · exact takeFitting_le.trans_lt (not_le.mp hlt)
      · exact ih he hnot

end

/-- The taken entries are distinct candidates, the amount is accounted for, and no further
candidate fits. -/
structure Fills {A : Type} [Ring A] [LinearOrder A] (candidates : List OfferBookEntry) (amount : A)
    (taken : List OfferBookEntry) (amountLeft : A) : Prop where
  among : ∀ e ∈ taken, e ∈ candidates
  distinct : (taken.map OfferBookEntry.offerId).Nodup
  accounted : (taken.map fun e => (e.baseAmount : A)).sum + amountLeft = amount
  nonneg : 0 ≤ amountLeft
  maximal : ∀ e ∈ candidates, e ∉ taken → amountLeft < e.baseAmount

theorem OfferBook.Ordered.fills {P A : Type} [LinearOrder P] [Pricing P] [Ring A] [LinearOrder A]
    [IsStrictOrderedRing A] {b : OfferBook P} (hb : b.Ordered) (p : P) (type : OfferType)
    {amount : A} (h : 0 ≤ amount) :
    Fills (b.getOffersByPrice p type) amount (matchLimit b p type amount).1
      (matchLimit b p type amount).2 := by
  have hperm := List.perm_insertionSort (fun a b : OfferBookEntry => b.baseAmount ≤ a.baseAmount)
    (b.getOffersByPrice p type)
  constructor
  · exact fun e he => hperm.mem_iff.mp (takeFitting_sublist.subset he)
  · refine List.Nodup.sublist (takeFitting_sublist.map _) ?_
    rw [(hperm.map _).nodup_iff]
    exact (hb.opposite type).nodup p
  · exact takeFitting_sum
  · exact takeFitting_nonneg h
  · exact fun e he => takeFitting_maximal (hperm.mem_iff.mpr he)

end Pricing

end RaidexNode
end Raidex
