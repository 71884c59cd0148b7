import Mathlib.Data.List.Sort
import Raidex.Lib.SortedDict
import Raidex.RaidexNode.Offer

/-!
# Raidex.RaidexNode.OfferBook

The offer book of a node, and the matching of a limit order with it.

An `OfferView` holds the entries of one side twice: sorted by price and id, and by id. A second
publication of an id at another price leaves the first one among the sorted entries only.
-/

namespace Raidex
namespace RaidexNode

open scoped List

structure OfferBookEntry where
  offer : BasicOffer Nat
  initiator : Address
  commitmentProof : CommitmentProof

def OfferBookEntry.offerId (e : OfferBookEntry) : Nat := e.offer.offerId

def OfferBookEntry.baseAmount (e : OfferBookEntry) : Nat := e.offer.baseAmount

def OfferBookEntry.price (e : OfferBookEntry) : Except PyError Double := e.offer.price

/-- A price and an offer id. The price is a quotient of natural numbers, so it is neither `nan`
nor a negative zero, and keys are equal in Python when they are equal. -/
abbrev EntryKey := Double × Nat

def keyLt (k l : EntryKey) : Bool := k.1 < l.1 || k.1 = l.1 && k.2 < l.2

/-! ## Views -/

/-- One `OfferView` holds the entries of one type. The sorted entries are under their own keys,
one under each, and the key of every entry by id is among them. -/
structure OfferView (type : OfferType) where
  offerEntries : List (EntryKey × OfferBookEntry)
  offerEntriesById : Dict Nat OfferBookEntry
  distinct : (offerEntries.map Prod.fst).Nodup
  keyed : ∀ k e, (k, e) ∈ offerEntries → e.price = .ok k.1 ∧ e.offerId = k.2 ∧ e.offer.type = type
  indexed : ∀ id e, offerEntriesById.lookup id = some e → ∃ price, e.price = .ok price ∧
    e.offerId = id ∧ (price, id) ∈ offerEntries.map Prod.fst

namespace OfferView

variable {type : OfferType}

def empty : OfferView type where
  offerEntries := []
  offerEntriesById := ∅
  distinct := List.nodup_nil
  keyed _ _ h := absurd h List.not_mem_nil
  indexed _ _ h := by cases h

/-- The entry, under its key. -/
def insert (v : OfferView type) (entry : OfferBookEntry) (price : Double)
    (h : entry.price = .ok price) (htype : entry.offer.type = type) : OfferView type where
  offerEntries := SortedDict.set keyLt (price, entry.offerId) entry v.offerEntries
  offerEntriesById := v.offerEntriesById.insert entry.offerId entry
  distinct := SortedDict.nodup_set v.distinct
  keyed k e hmem := by
    rcases SortedDict.mem_set.mp hmem with ⟨rfl, rfl⟩ | ⟨-, hmem⟩
    · exact ⟨h, rfl, htype⟩
    · exact v.keyed k e hmem
  indexed id e hl := by
    by_cases hid : id = entry.offerId
    · subst hid
      rw [AList.lookup_insert] at hl
      cases hl
      exact ⟨price, h, rfl, SortedDict.mem_keys_set.mpr (.inl rfl)⟩
    · rw [AList.lookup_insert_ne hid] at hl
      obtain ⟨p, hp, he, hk⟩ := v.indexed id e hl
      exact ⟨p, hp, he, SortedDict.mem_keys_set.mpr (.inr hk)⟩

def addOffer (v : OfferView type) (entry : OfferBookEntry) (htype : entry.offer.type = type) :
    Except PyError (OfferView type) :=
  match h : entry.price with
  | .error e => .error e
  | .ok price => .ok (v.insert entry price h htype)

/-- The entry under the key is gone, and so is the entry by its id. -/
def erase (v : OfferView type) (key : EntryKey) : OfferView type where
  offerEntries := SortedDict.del key v.offerEntries
  offerEntriesById := v.offerEntriesById.erase key.2
  distinct := v.distinct.sublist (List.filter_sublist.map _)
  keyed k e h := v.keyed k e (List.mem_filter.mp h).1
  indexed id e hl := by
    have hid : id ≠ key.2 := by
      rintro rfl
      rw [AList.lookup_erase] at hl; cases hl
    rw [AList.lookup_erase_ne hid] at hl
    obtain ⟨p, hp, he, hk⟩ := v.indexed id e hl
    exact ⟨p, hp, he, SortedDict.mem_keys_del.mpr ⟨fun hk => hid (congrArg Prod.snd hk), hk⟩⟩

def removeOffer (v : OfferView type) (offerId : Nat) : Except PyError (OfferView type) :=
  match v.offerEntriesById.lookup offerId with
  | none => .ok v
  | some entry => do
    let key : EntryKey := (← entry.price, entry.offerId)
    if key ∈ v.offerEntries.map Prod.fst then return v.erase key else throw .keyError

def getOfferById (v : OfferView type) (offerId : Nat) : Option OfferBookEntry :=
  v.offerEntriesById.lookup offerId

theorem addOffer_ok {v : OfferView type} {entry : OfferBookEntry} {price : Double}
    (h : entry.price = .ok price) (htype : entry.offer.type = type) :
    v.addOffer entry htype = .ok (v.insert entry price h htype) := by
  unfold addOffer
  split
  next e he => rw [h] at he; cases he
  next p hp =>
    obtain rfl : price = p := Except.ok.inj (h.symm.trans hp)
    rfl

theorem addOffer_error {v : OfferView type} {entry : OfferBookEntry} {e : PyError}
    (h : entry.price = .error e) (htype : entry.offer.type = type) :
    v.addOffer entry htype = .error e := by
  unfold addOffer
  split
  next e' he => exact congrArg Except.error (Except.error.inj (he.symm.trans h))
  next p hp => rw [h] at hp; cases hp

/-- The `del` of a view that holds the id never raises. -/
theorem removeOffer_ok {v : OfferView type} {offerId : Nat} (h : offerId ∈ v.offerEntriesById) :
    ∃ price, v.removeOffer offerId = .ok (v.erase (price, offerId)) := by
  obtain ⟨e, he⟩ := Option.isSome_iff_exists.mp (AList.lookup_isSome.mpr h)
  obtain ⟨p, hp, hid, hk⟩ := v.indexed _ _ he
  refine ⟨p, ?_⟩
  rw [removeOffer, he]
  show (e.price >>= fun q => _) = _
  rw [hp, hid]
  exact if_pos hk

end OfferView

/-- The loop breaks after the first entry with a higher price. The price of a limit order is not
zero, so it compares equal to the price of an entry when it is the same. -/
def OfferView.getOffersByPrice {type : OfferType} (v : OfferView type) (price : Double) :
    List OfferBookEntry :=
  (SortedDict.scan (fun x => x.1.1 = price) (fun x => price < x.1.1) v.offerEntries).map Prod.snd

namespace OfferView

variable {type : OfferType} {v : OfferView type} {price : Double}

/-- They are some of the entries with that price. -/
theorem getOffersByPrice_sublist (v : OfferView type) (price : Double) :
    (v.getOffersByPrice price).Sublist
      ((v.offerEntries.filter fun x => x.1.1 = price).map Prod.snd) :=
  (SortedDict.scan_sublist _ _ _).map _

theorem of_mem_getOffersByPrice {e : OfferBookEntry} (h : e ∈ v.getOffersByPrice price) :
    (∃ p, e.price = .ok p) ∧ e.offer.type = type := by
  obtain ⟨x, hx, rfl⟩ := List.mem_map.mp ((v.getOffersByPrice_sublist price).subset h)
  obtain ⟨hp, -, ht⟩ := v.keyed _ _ (List.mem_filter.mp hx).1
  exact ⟨⟨_, hp⟩, ht⟩

/-- The entries of a view with one price have different ids. -/
theorem getOffersByPrice_nodup (v : OfferView type) (price : Double) :
    ((v.getOffersByPrice price).map OfferBookEntry.offerId).Nodup := by
  have hsub := (v.getOffersByPrice_sublist price).map OfferBookEntry.offerId
  refine List.Nodup.sublist hsub ?_
  rw [List.map_map]
  have hkeys : ((v.offerEntries.filter fun x => x.1.1 = price).map Prod.fst).Nodup :=
    v.distinct.sublist (List.filter_sublist.map _)
  refine List.Nodup.of_map (fun id => (price, id)) ?_
  rw [List.map_map]
  convert hkeys using 1
  refine List.map_congr_left ?_
  intro x hx
  obtain ⟨hmem, hprice⟩ := List.mem_filter.mp hx
  obtain ⟨-, hid, -⟩ := v.keyed x.1 x.2 hmem
  simp only [Function.comp_apply]
  rw [hid, ← of_decide_eq_true hprice]

end OfferView

/-! ## The book -/

structure OfferBook where
  buys : OfferView .buy
  sells : OfferView .sell

namespace OfferBook

def empty : OfferBook where
  buys := .empty
  sells := .empty

def insertOffer (b : OfferBook) (entry : OfferBookEntry) : Except PyError OfferBook :=
  match h : entry.offer.type with
  | .buy => do return { b with buys := ← b.buys.addOffer entry h }
  | .sell => do return { b with sells := ← b.sells.addOffer entry h }

/-- The buys are looked up first. -/
def getOfferById (b : OfferBook) (offerId : Nat) : Option OfferBookEntry :=
  (b.buys.getOfferById offerId).or (b.sells.getOfferById offerId)

def contains (b : OfferBook) (offerId : Nat) : Bool :=
  offerId ∈ b.buys.offerEntriesById || offerId ∈ b.sells.offerEntriesById

def removeOffer (b : OfferBook) (offerId : Nat) : Except PyError OfferBook :=
  if offerId ∈ b.buys.offerEntriesById then do
    return { b with buys := ← b.buys.removeOffer offerId }
  else if offerId ∈ b.sells.offerEntriesById then do
    return { b with sells := ← b.sells.removeOffer offerId }
  else throw .offerNotFound

/-- A `SELL` is matched with the buys. -/
def getOffersByPrice (b : OfferBook) (price : Double) (type : OfferType) : List OfferBookEntry :=
  match type with
  | .sell => b.buys.getOffersByPrice price
  | .buy => b.sells.getOffersByPrice price

theorem insertOffer_ok {b : OfferBook} {entry : OfferBookEntry} {price : Double}
    (h : entry.price = .ok price) : ∃ b', b.insertOffer entry = .ok b' := by
  unfold insertOffer
  split
  · rw [OfferView.addOffer_ok h]; exact ⟨_, rfl⟩
  · rw [OfferView.addOffer_ok h]; exact ⟨_, rfl⟩

theorem insertOffer_error {b : OfferBook} {entry : OfferBookEntry} {e : PyError}
    (h : entry.price = .error e) : b.insertOffer entry = .error e := by
  unfold insertOffer
  split
  · rw [OfferView.addOffer_error h]; rfl
  · rw [OfferView.addOffer_error h]; rfl

/-- A book that contains the id can remove it, and removes no other. -/
theorem removeOffer_ok {b : OfferBook} {offerId : Nat} (h : b.contains offerId = true) :
    ∃ b', b.removeOffer offerId = .ok b' ∧
      ∀ id, id ≠ offerId → b'.contains id = b.contains id := by
  unfold removeOffer
  by_cases hb : offerId ∈ b.buys.offerEntriesById
  · obtain ⟨p, hp⟩ := OfferView.removeOffer_ok hb
    rw [if_pos hb, hp]
    refine ⟨_, rfl, ?_⟩
    intro id hid
    simp [contains, OfferView.erase, AList.mem_erase, hid]
  · have hs : offerId ∈ b.sells.offerEntriesById := by simpa [contains, hb] using h
    obtain ⟨p, hp⟩ := OfferView.removeOffer_ok hs
    rw [if_neg hb, if_pos hs, hp]
    refine ⟨_, rfl, ?_⟩
    intro id hid
    simp [contains, OfferView.erase, AList.mem_erase, hid]

theorem removeOffer_error {b : OfferBook} {offerId : Nat} (h : b.contains offerId = false) :
    b.removeOffer offerId = .error .offerNotFound := by
  simp only [contains, Bool.or_eq_false_iff, decide_eq_false_iff_not] at h
  rw [removeOffer, if_neg h.1, if_neg h.2]
  rfl

/-- An order is matched with entries of the other type, each with a price. -/
theorem of_mem_getOffersByPrice {b : OfferBook} {price : Double} {type : OfferType}
    {e : OfferBookEntry} (h : e ∈ b.getOffersByPrice price type) :
    (∃ p, e.price = .ok p) ∧ e.offer.type ≠ type := by
  cases type with
  | buy =>
    obtain ⟨hp, ht⟩ := OfferView.of_mem_getOffersByPrice h
    exact ⟨hp, by rw [ht]; exact nofun⟩
  | sell =>
    obtain ⟨hp, ht⟩ := OfferView.of_mem_getOffersByPrice h
    exact ⟨hp, by rw [ht]; exact nofun⟩

theorem getOffersByPrice_nodup (b : OfferBook) (price : Double) (type : OfferType) :
    ((b.getOffersByPrice price type).map OfferBookEntry.offerId).Nodup := by
  cases type with
  | buy => exact b.sells.getOffersByPrice_nodup price
  | sell => exact b.buys.getOffersByPrice_nodup price

end OfferBook

/-! ## Matching -/

/-- Take the entries that still fit, in the given order. -/
def takeFitting : List OfferBookEntry → Number → Except PyError (List OfferBookEntry × Number)
  | [], amountLeft => return ([], amountLeft)
  | entry :: entries, amountLeft =>
    if Number.le (.int entry.baseAmount) amountLeft then do
      let (taken, rest) ← takeFitting entries (← amountLeft.subInt entry.baseAmount)
      return (entry :: taken, rest)
    else takeFitting entries amountLeft

/-- `match_limit`: the entries with the price of the order, the largest first. -/
def matchLimit (book : OfferBook) (price : Double) (type : OfferType) (amount : Number) :
    Except PyError (List OfferBookEntry × Number) :=
  takeFitting ((book.getOffersByPrice price type).insertionSort
    fun a b => b.baseAmount ≤ a.baseAmount) amount

theorem takeFitting_ok {entries : List OfferBookEntry}
    (h : ∀ e ∈ entries, ∃ p, e.price = .ok p) (amount : Number) :
    ∃ taken rest, takeFitting entries amount = .ok (taken, rest) := by
  induction entries generalizing amount with
  | nil => exact ⟨_, _, rfl⟩
  | cons e entries ih =>
    have htail := fun e' he' => h e' (List.mem_cons_of_mem _ he')
    unfold takeFitting
    split
    · obtain ⟨p, hp⟩ := h e (List.mem_cons_self ..)
      obtain ⟨d, hd⟩ := Number.subInt_ok hp amount
      obtain ⟨taken, rest, ht⟩ := ih htail d
      refine ⟨e :: taken, rest, ?_⟩
      show (amount.subInt e.offer.baseAmount >>= fun d => takeFitting entries d >>= _) = _
      rw [hd]
      show (takeFitting entries d >>= _) = _
      rw [ht]
      rfl
    · exact ih htail amount

theorem takeFitting_sublist {entries taken : List OfferBookEntry} {amount rest : Number}
    (h : takeFitting entries amount = .ok (taken, rest)) : taken.Sublist entries := by
  induction entries generalizing amount taken with
  | nil => cases h; exact .slnil
  | cons e entries ih =>
    unfold takeFitting at h
    split at h
    · cases hd : amount.subInt e.baseAmount with
      | error err => rw [hd] at h; cases h
      | ok d =>
        rw [hd] at h
        change (takeFitting entries d >>= fun x => pure (e :: x.1, x.2)) = _ at h
        cases ht : takeFitting entries d with
        | error err => rw [ht] at h; cases h
        | ok x =>
          rw [ht] at h
          cases h
          exact (ih ht).cons_cons e
    · exact (ih h).cons e

section

variable {book : OfferBook} {price : Double} {type : OfferType} {amount rest : Number}
  {taken : List OfferBookEntry}

/-- Matching never raises. -/
theorem matchLimit_ok (book : OfferBook) (price : Double) (type : OfferType) (amount : Number) :
    ∃ taken rest, matchLimit book price type amount = .ok (taken, rest) := by
  refine takeFitting_ok (fun e he => ?_) amount
  exact (OfferBook.of_mem_getOffersByPrice ((List.perm_insertionSort _ _).mem_iff.mp he)).1

/-- A limit order is matched with entries of the other type. -/
theorem matchLimit_type (h : matchLimit book price type amount = .ok (taken, rest))
    {e : OfferBookEntry} (he : e ∈ taken) : e.offer.type ≠ type := by
  have hmem := (takeFitting_sublist h).subset he
  exact (OfferBook.of_mem_getOffersByPrice ((List.perm_insertionSort _ _).mem_iff.mp hmem)).2

/-- The entries a limit order is matched with have different ids. -/
theorem matchLimit_nodup (h : matchLimit book price type amount = .ok (taken, rest)) :
    (taken.map OfferBookEntry.offerId).Nodup := by
  refine List.Nodup.sublist ((takeFitting_sublist h).map _) ?_
  rw [((List.perm_insertionSort _ _).map _).nodup_iff]
  exact book.getOffersByPrice_nodup price type

end

end RaidexNode
end Raidex
