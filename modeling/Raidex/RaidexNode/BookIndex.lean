import Raidex.Lib.Run
import Raidex.RaidexNode.OfferBook

/-!
# Raidex.RaidexNode.BookIndex

Whether the two dictionaries of each view, and the two views of the book, stay in step.

* `BookOp`: an insertion as `handle_offer_published` makes it, or a removal.
* `Indexed`: both dictionaries of a view hold the same entries under their keys, and every offer
  id is in the book once.
* `Held`: the entries that the views find by id are among the sorted ones.
* `book_indexed_iff`: a sequence of operations keeps the book indexed, and leaves nothing of a
  removed offer, exactly when no id is inserted while it is in the book on the other side or at
  another price.
-/

namespace Raidex
namespace RaidexNode

open scoped List

/-- An insertion that raises leaves the book as it is. -/
inductive BookOp where
  | insert (e : OfferBookEntry)
  | remove (offerId : Nat)

namespace OfferView

variable {type : OfferType}

def values (v : OfferView type) : List OfferBookEntry := v.offerEntries.map Prod.snd

/-- The sorted entries are those by id, each under its price and id. -/
structure InStep (v : OfferView type) : Prop where
  same : ∀ e, e ∈ v.values ↔ ∃ id, v.offerEntriesById.lookup id = some e
  keys : ∀ x ∈ v.offerEntries, x.2.price = .ok x.1.1 ∧ x.2.offerId = x.1.2
  keysById : ∀ id e, v.offerEntriesById.lookup id = some e → e.offerId = id

end OfferView

namespace OfferBook

def step (b : OfferBook) : BookOp → OfferBook
  | .insert e =>
    match b.insertOffer e with
    | .ok b' => b'
    | .error _ => b
  | .remove offerId =>
    match b.removeOffer offerId with
    | .ok b' => b'
    | .error _ => b

def run (ops : List BookOp) : OfferBook := LTS.run step .empty ops

/-- The entries of both views. -/
def values (b : OfferBook) : List OfferBookEntry := b.buys.values ++ b.sells.values

structure Indexed (b : OfferBook) : Prop where
  buys : b.buys.InStep
  sells : b.sells.InStep
  once : (b.values.map OfferBookEntry.offerId).Nodup

/-- Nothing is left of the offer that the last operation removed. -/
def Removed (ops : List BookOp) (b : OfferBook) : Prop :=
  ∀ id, ops.getLast? = some (.remove id) → ∀ e ∈ b.values, e.offerId ≠ id

/-- What the book holds under the id of a new entry is on the same side at the same price. -/
def Admits (b : OfferBook) : BookOp → Prop
  | .insert e => ∀ price, e.price = .ok price → ∀ e' ∈ b.values, e'.offerId = e.offerId →
      e'.offer.type = e.offer.type ∧ e'.price = .ok price
  | .remove _ => True

instance (b : OfferBook) (op : BookOp) : Decidable (b.Admits op) :=
  match op with
  | .remove _ => .isTrue trivial
  | .insert e => decidable_of_iff (∀ price ∈ e.price.toOption, ∀ e' ∈ b.values,
      e'.offerId = e.offerId → e'.offer.type = e.offer.type ∧ e'.price = .ok price) (by
    unfold Admits
    cases h : e.price <;> simp [h, Except.toOption])

end OfferBook

/-! ## One view -/

namespace OfferView

variable {type : OfferType} {v : OfferView type} {entry e : OfferBookEntry} {price : Double}
  {hp : entry.price = .ok price} {ht : entry.offer.type = type} {key : EntryKey}

theorem mem_values : e ∈ v.values ↔ ∃ k, (k, e) ∈ v.offerEntries := by
  rw [values, List.mem_map]
  constructor
  · rintro ⟨⟨k, e'⟩, hx, rfl⟩
    exact ⟨k, hx⟩
  · rintro ⟨k, hk⟩
    exact ⟨(k, e), hk, rfl⟩

theorem values_type (h : e ∈ v.values) : e.offer.type = type := by
  obtain ⟨k, hk⟩ := mem_values.mp h
  exact (v.keyed k e hk).2.2

/-- The ids of the entries are those of their keys. -/
theorem map_offerId_values :
    v.values.map OfferBookEntry.offerId = (v.offerEntries.map Prod.fst).map Prod.snd := by
  rw [values, List.map_map, List.map_map]
  refine List.map_congr_left ?_
  intro x hx
  exact (v.keyed x.1 x.2 hx).2.1

theorem mem_values_insert : e ∈ (v.insert entry price hp ht).values ↔
    e = entry ∨ ∃ k, (k, e) ∈ v.offerEntries ∧ k ≠ (price, entry.offerId) := by
  rw [mem_values]
  show (∃ k, (k, e) ∈ SortedDict.set keyLt (price, entry.offerId) entry v.offerEntries) ↔ _
  simp only [SortedDict.mem_set]
  constructor
  · rintro ⟨k, ⟨-, rfl⟩ | ⟨hk, hx⟩⟩
    · exact .inl rfl
    · exact .inr ⟨k, hx, hk⟩
  · rintro (rfl | ⟨k, hx, hk⟩)
    · exact ⟨_, .inl ⟨rfl, rfl⟩⟩
    · exact ⟨k, .inr ⟨hk, hx⟩⟩

variable (hp ht) in
theorem of_mem_values_insert (h : e ∈ (v.insert entry price hp ht).values) :
    e = entry ∨ e ∈ v.values := by
  refine (mem_values_insert.mp h).imp_right ?_
  rintro ⟨k, hk, -⟩
  exact mem_values.mpr ⟨k, hk⟩

variable (hp ht) in
theorem self_mem_values_insert : entry ∈ (v.insert entry price hp ht).values :=
  mem_values_insert.mpr (.inl rfl)

variable (hp ht) in
/-- An entry with another price is under another key. -/
theorem mem_values_insert_of_price (he : e ∈ v.values) (hne : e.price ≠ .ok price) :
    e ∈ (v.insert entry price hp ht).values := by
  obtain ⟨k, hk⟩ := mem_values.mp he
  refine mem_values_insert.mpr (.inr ⟨k, hk, ?_⟩)
  rintro rfl
  exact hne (v.keyed _ e hk).1

theorem mem_values_erase : e ∈ (v.erase key).values ↔ ∃ k, (k, e) ∈ v.offerEntries ∧ k ≠ key := by
  rw [mem_values]
  refine exists_congr ?_
  intro k
  exact SortedDict.mem_del.trans and_comm

theorem inStep_empty : (OfferView.empty : OfferView type).InStep where
  same e := by
    show e ∈ [] ↔ _
    refine ⟨fun h => absurd h List.not_mem_nil, ?_⟩
    rintro ⟨id, h⟩
    cases h
  keys _ h := absurd h List.not_mem_nil
  keysById _ _ h := by cases h

variable (hp ht) in
/-- The entries of the id, if there are any, are under the key of the new entry. -/
theorem InStep.insert (h : v.InStep)
    (hkey : ∀ k e, (k, e) ∈ v.offerEntries → e.offerId = entry.offerId →
      k = (price, entry.offerId)) : (v.insert entry price hp ht).InStep := by
  constructor
  · intro e
    rw [mem_values_insert]
    show _ ↔ ∃ id, (v.offerEntriesById.insert entry.offerId entry).lookup id = some e
    constructor
    · rintro (rfl | ⟨k, hk, hne⟩)
      · exact ⟨_, AList.lookup_insert _⟩
      · obtain ⟨id, hid⟩ := (h.same e).mp (mem_values.mpr ⟨k, hk⟩)
        have hid' : id ≠ entry.offerId := by
          rintro rfl
          exact hne (hkey k e hk (h.keysById _ e hid))
        exact ⟨id, by rw [AList.lookup_insert_ne hid']; exact hid⟩
    · rintro ⟨id, hid⟩
      by_cases hid' : id = entry.offerId
      · subst hid'
        rw [AList.lookup_insert] at hid
        cases hid; exact .inl rfl
      · rw [AList.lookup_insert_ne hid'] at hid
        obtain ⟨k, hk⟩ := mem_values.mp ((h.same e).mpr ⟨id, hid⟩)
        refine .inr ⟨k, hk, ?_⟩
        rintro rfl
        have hentry := (h.keys _ hk).2
        rw [h.keysById id e hid] at hentry
        exact hid' hentry
  · intro x hx
    obtain ⟨h₁, h₂, -⟩ := (v.insert entry price hp ht).keyed x.1 x.2 hx
    exact ⟨h₁, h₂⟩
  · intro id e hid
    obtain ⟨-, -, he, -⟩ := (v.insert entry price hp ht).indexed id e hid
    exact he

theorem of_mem_values_erase (h : e ∈ (v.erase key).values) : e ∈ v.values := by
  obtain ⟨k, hk, -⟩ := mem_values_erase.mp h
  exact mem_values.mpr ⟨k, hk⟩

/-- The entries of the id are under the key that is erased. -/
theorem InStep.erase (h : v.InStep)
    (hkey : ∀ k e, (k, e) ∈ v.offerEntries → e.offerId = key.2 → k = key) :
    (v.erase key).InStep := by
  constructor
  · intro e
    rw [mem_values_erase]
    show _ ↔ ∃ id, (v.offerEntriesById.erase key.2).lookup id = some e
    constructor
    · rintro ⟨k, hk, hne⟩
      obtain ⟨id, hid⟩ := (h.same e).mp (mem_values.mpr ⟨k, hk⟩)
      have hid' : id ≠ key.2 := by
        rintro rfl
        exact hne (hkey k e hk (h.keysById _ e hid))
      exact ⟨id, by rw [AList.lookup_erase_ne hid']; exact hid⟩
    · rintro ⟨id, hid⟩
      have hid' : id ≠ key.2 := by
        rintro rfl
        rw [AList.lookup_erase] at hid; cases hid
      rw [AList.lookup_erase_ne hid'] at hid
      obtain ⟨k, hk⟩ := mem_values.mp ((h.same e).mpr ⟨id, hid⟩)
      refine ⟨k, hk, ?_⟩
      rintro rfl
      have hentry := (h.keys _ hk).2
      rw [h.keysById id e hid] at hentry
      exact hid' hentry
  · intro x hx
    obtain ⟨h₁, h₂, -⟩ := (v.erase key).keyed x.1 x.2 hx
    exact ⟨h₁, h₂⟩
  · intro id e hid
    obtain ⟨-, -, he, -⟩ := (v.erase key).indexed id e hid
    exact he

/-- An entry among the sorted ones is the entry by its id. -/
theorem InStep.lookup (h : v.InStep) (he : e ∈ v.values) :
    v.offerEntriesById.lookup e.offerId = some e := by
  obtain ⟨id, hid⟩ := (h.same e).mp he
  rw [h.keysById id e hid]; exact hid

theorem ids_insert : (v.insert entry price hp ht).values.map OfferBookEntry.offerId ~
    if (price, entry.offerId) ∈ v.offerEntries.map Prod.fst then
      v.values.map OfferBookEntry.offerId
    else entry.offerId :: v.values.map OfferBookEntry.offerId := by
  rw [map_offerId_values, map_offerId_values]
  have hkeys : (v.insert entry price hp ht).offerEntries.map Prod.fst ~ _ :=
    SortedDict.keys_set
  refine (hkeys.map Prod.snd).trans ?_
  split
  · exact .refl _
  · exact .refl _

theorem ids_erase : ((v.erase key).values.map OfferBookEntry.offerId).Sublist
    (v.values.map OfferBookEntry.offerId) :=
  (List.filter_sublist.map _).map _

theorem removeOffer_eq_erase (h : v.offerEntriesById.lookup entry.offerId = some entry)
    (hp : entry.price = .ok price) :
    v.removeOffer entry.offerId = .ok (v.erase (price, entry.offerId)) := by
  obtain ⟨p, hp', -, hk⟩ := v.indexed _ _ h
  obtain rfl : price = p := Except.ok.inj (hp.symm.trans hp')
  rw [removeOffer, h]
  show (entry.price >>= fun q => _) = _
  rw [hp]
  exact if_pos hk

/-- The entries by id are among the sorted ones. -/
def Held (v : OfferView type) : Prop := ∀ id e, v.getOfferById id = some e → e ∈ v.values

variable (hp ht) in
theorem Held.insert (h : v.Held) : (v.insert entry price hp ht).Held := by
  intro id e hl
  by_cases hid : id = entry.offerId
  · subst hid
    obtain rfl : entry = e := Option.some.inj ((AList.lookup_insert _).symm.trans hl)
    exact self_mem_values_insert hp ht
  · have hl : v.getOfferById id = some e := (AList.lookup_insert_ne hid).symm.trans hl
    obtain ⟨k, hk⟩ := mem_values.mp (h id e hl)
    refine mem_values_insert.mpr (.inr ⟨k, hk, ?_⟩)
    rintro rfl
    obtain ⟨-, -, hid', -⟩ := v.indexed id e hl
    exact hid (hid'.symm.trans (v.keyed _ _ hk).2.1)

/-- The entry by the id is removed, and no other. -/
theorem Held.removeOffer {id : Nat} (h : v.Held) (hl : v.getOfferById id = some entry) :
    ∃ v', v.removeOffer id = .ok v' ∧ v'.Held ∧
      ∀ e, e ∈ v'.values ↔ e ∈ v.values ∧ e ≠ entry := by
  obtain ⟨p, hp, rfl, -⟩ := v.indexed id entry hl
  have hvalues (e : OfferBookEntry) :
      e ∈ (v.erase (p, entry.offerId)).values ↔ e ∈ v.values ∧ e ≠ entry := by
    obtain ⟨k, hk⟩ := mem_values.mp (h _ _ hl)
    obtain ⟨hk₁, hk₂, -⟩ := v.keyed k entry hk
    obtain rfl : k = (p, entry.offerId) :=
      Prod.ext (Except.ok.inj (hk₁.symm.trans hp)) hk₂.symm
    rw [mem_values_erase, mem_values]
    constructor
    · rintro ⟨k', hk', hne⟩
      refine ⟨⟨k', hk'⟩, ?_⟩
      rintro rfl
      obtain ⟨hp', hid', -⟩ := v.keyed k' e hk'
      exact hne (Prod.ext (Except.ok.inj (hp'.symm.trans hp)) hid'.symm)
    · rintro ⟨⟨k', hk'⟩, hne⟩
      refine ⟨k', hk', fun heq => hne ?_⟩
      exact congrArg Prod.snd (List.inj_on_of_nodup_map v.distinct hk' hk heq)
  refine ⟨_, removeOffer_eq_erase hl hp, fun id e hl' => ?_, hvalues⟩
  replace hl' : (v.offerEntriesById.erase entry.offerId).lookup id = some e := hl'
  have hid : id ≠ entry.offerId := by
    rintro rfl
    rw [AList.lookup_erase] at hl'
    cases hl'
  rw [AList.lookup_erase_ne hid] at hl'
  refine (hvalues e).mpr ⟨h id e hl', ?_⟩
  rintro rfl
  obtain ⟨-, -, hid', -⟩ := v.indexed id e hl'
  exact hid hid'.symm

section

variable {type' : OfferType} {w : OfferView type'}

variable (hp ht) in
theorem once_insert (h : ((v.values ++ w.values).map OfferBookEntry.offerId).Nodup)
    (hkey : ∀ k e, (k, e) ∈ v.offerEntries → e.offerId = entry.offerId →
      k = (price, entry.offerId))
    (hw : ∀ e ∈ w.values, e.offerId ≠ entry.offerId) :
    (((v.insert entry price hp ht).values ++ w.values).map OfferBookEntry.offerId).Nodup := by
  rw [List.map_append] at h ⊢
  refine ((ids_insert.append_right _).nodup_iff).mpr ?_
  split
  · exact h
  next hl =>
    refine List.nodup_cons.mpr ⟨fun hmem => ?_, h⟩
    rcases List.mem_append.mp hmem with hmem | hmem
    · obtain ⟨e, he, hid⟩ := List.mem_map.mp hmem
      obtain ⟨k, hk⟩ := mem_values.mp he
      exact hl (List.mem_map.mpr ⟨(k, e), hk, hkey k e hk hid⟩)
    · obtain ⟨e, he, hid⟩ := List.mem_map.mp hmem
      exact hw e he hid

theorem once_erase (h : ((v.values ++ w.values).map OfferBookEntry.offerId).Nodup) :
    (((v.erase key).values ++ w.values).map OfferBookEntry.offerId).Nodup := by
  rw [List.map_append] at h ⊢
  exact h.sublist (ids_erase.append_right _)

/-- The id of an entry of one view is not in the other. -/
theorem ne_of_once (h : ((v.values ++ w.values).map OfferBookEntry.offerId).Nodup)
    (hv : entry ∈ v.values) (hw : e ∈ w.values) : e.offerId ≠ entry.offerId := by
  rw [List.map_append, List.nodup_append] at h
  exact (h.2.2 _ (List.mem_map_of_mem hv) _ (List.mem_map_of_mem hw)).symm

theorem once_comm : ((v.values ++ w.values).map OfferBookEntry.offerId).Nodup ↔
    ((w.values ++ v.values).map OfferBookEntry.offerId).Nodup :=
  (List.perm_append_comm.map _).nodup_iff

end

end OfferView

/-! ## The book -/

namespace OfferBook

variable {b : OfferBook} {entry e : OfferBookEntry} {price : Double} {ops : List BookOp}

theorem mem_values : e ∈ b.values ↔ e ∈ b.buys.values ∨ e ∈ b.sells.values := List.mem_append

theorem insertOffer_buy (hp : entry.price = .ok price) (ht : entry.offer.type = .buy) :
    b.insertOffer entry = .ok { b with buys := b.buys.insert entry price hp ht } := by
  unfold insertOffer
  split
  · rw [OfferView.addOffer_ok hp]; rfl
  next h => rw [ht] at h; cases h

theorem insertOffer_sell (hp : entry.price = .ok price) (ht : entry.offer.type = .sell) :
    b.insertOffer entry = .ok { b with sells := b.sells.insert entry price hp ht } := by
  unfold insertOffer
  split
  next h => rw [ht] at h; cases h
  · rw [OfferView.addOffer_ok hp]; rfl

theorem indexed_empty : empty.Indexed where
  buys := OfferView.inStep_empty
  sells := OfferView.inStep_empty
  once := List.nodup_nil

/-- A new entry keeps the book indexed when what is under its id is on its side at its price. -/
theorem Indexed.insert {b' : OfferBook} (h : b.Indexed) (hadm : b.Admits (.insert entry))
    (hins : b.insertOffer entry = .ok b') : b'.Indexed := by
  cases hp : entry.price with
  | error err => rw [insertOffer_error hp] at hins; cases hins
  | ok price =>
    have hadm := hadm price hp
    cases ht : entry.offer.type with
    | buy =>
      have hkey : ∀ k e, (k, e) ∈ b.buys.offerEntries → e.offerId = entry.offerId →
          k = (price, entry.offerId) := by
        intro k e hk hid
        have he := (hadm e (mem_values.mpr (.inl (OfferView.mem_values.mpr ⟨k, hk⟩))) hid).2
        obtain ⟨hp', hid', -⟩ := b.buys.keyed k e hk
        exact Prod.ext (Except.ok.inj (hp'.symm.trans he)) (hid'.symm.trans hid)
      have hother : ∀ e ∈ b.sells.values, e.offerId ≠ entry.offerId := by
        intro e he hid
        have hty := (hadm e (mem_values.mpr (.inr he)) hid).1
        rw [OfferView.values_type he, ht] at hty
        cases hty
      rw [insertOffer_buy hp ht] at hins
      cases hins
      exact ⟨h.buys.insert hp ht hkey, h.sells, OfferView.once_insert hp ht h.once hkey hother⟩
    | sell =>
      have hkey : ∀ k e, (k, e) ∈ b.sells.offerEntries → e.offerId = entry.offerId →
          k = (price, entry.offerId) := by
        intro k e hk hid
        have he := (hadm e (mem_values.mpr (.inr (OfferView.mem_values.mpr ⟨k, hk⟩))) hid).2
        obtain ⟨hp', hid', -⟩ := b.sells.keyed k e hk
        exact Prod.ext (Except.ok.inj (hp'.symm.trans he)) (hid'.symm.trans hid)
      have hother : ∀ e ∈ b.buys.values, e.offerId ≠ entry.offerId := by
        intro e he hid
        have hty := (hadm e (mem_values.mpr (.inl he)) hid).1
        rw [OfferView.values_type he, ht] at hty
        cases hty
      rw [insertOffer_sell hp ht] at hins
      cases hins
      have honce := OfferView.once_insert hp ht (OfferView.once_comm.mp h.once) hkey hother
      exact ⟨h.buys, h.sells.insert hp ht hkey, OfferView.once_comm.mp honce⟩

/-- In a view that is in step, the entries of an id are under the key that is erased. -/
theorem erase_key {type : OfferType} {v : OfferView type} (h : v.InStep)
    (he : v.offerEntriesById.lookup entry.offerId = some entry) (hp : entry.price = .ok price)
    (k : EntryKey) (e : OfferBookEntry) (hk : (k, e) ∈ v.offerEntries)
    (hid : e.offerId = entry.offerId) : k = (price, entry.offerId) := by
  have hl := h.lookup (OfferView.mem_values.mpr ⟨k, hk⟩)
  rw [hid, he] at hl
  cases hl
  obtain ⟨hp', hid', -⟩ := v.keyed k entry hk
  exact Prod.ext (Except.ok.inj (hp'.symm.trans hp)) hid'.symm

/-- Removing an id keeps the book indexed, and leaves nothing under the id. -/
theorem Indexed.remove {b' : OfferBook} {offerId : Nat} (h : b.Indexed)
    (hrem : b.removeOffer offerId = .ok b') :
    b'.Indexed ∧ ∀ e ∈ b'.values, e.offerId ≠ offerId := by
  unfold removeOffer at hrem
  split at hrem
  next hb =>
    obtain ⟨entry, he⟩ := Option.isSome_iff_exists.mp (AList.lookup_isSome.mpr hb)
    obtain rfl := h.buys.keysById _ _ he
    obtain ⟨price, hp, -⟩ := b.buys.indexed _ _ he
    rw [OfferView.removeOffer_eq_erase he hp] at hrem
    cases hrem
    have hkey := erase_key h.buys he hp
    refine ⟨⟨h.buys.erase hkey, h.sells, OfferView.once_erase h.once⟩, ?_⟩
    intro e hmem hid
    rcases mem_values.mp hmem with hmem | hmem
    · obtain ⟨k, hk, hne⟩ := OfferView.mem_values_erase.mp hmem
      exact hne (hkey k e hk hid)
    · have hentry : entry ∈ b.buys.values := (h.buys.same entry).mpr ⟨_, he⟩
      exact OfferView.ne_of_once h.once hentry hmem hid
  next hb =>
    split at hrem
    next hs =>
      obtain ⟨entry, he⟩ := Option.isSome_iff_exists.mp (AList.lookup_isSome.mpr hs)
      obtain rfl := h.sells.keysById _ _ he
      obtain ⟨price, hp, -⟩ := b.sells.indexed _ _ he
      rw [OfferView.removeOffer_eq_erase he hp] at hrem
      cases hrem
      have hkey := erase_key h.sells he hp
      have honce := OfferView.once_comm.mp h.once
      refine ⟨⟨h.buys, h.sells.erase hkey, OfferView.once_comm.mp (OfferView.once_erase honce)⟩,
        fun e hmem hid => ?_⟩
      rcases mem_values.mp hmem with hmem | hmem
      · have hentry : entry ∈ b.sells.values := (h.sells.same entry).mpr ⟨_, he⟩
        exact OfferView.ne_of_once honce hentry hmem hid
      · obtain ⟨k, hk, hne⟩ := OfferView.mem_values_erase.mp hmem
        exact hne (hkey k e hk hid)
    next hs => cases hrem

/-- An indexed book contains the ids of its entries. -/
theorem Indexed.contains (h : b.Indexed) (he : e ∈ b.values) : b.contains e.offerId = true := by
  unfold OfferBook.contains
  rcases mem_values.mp he with he | he
  · have hl := h.buys.lookup he
    simp [← AList.lookup_isSome, hl]
  · have hl := h.sells.lookup he
    simp [← AList.lookup_isSome, hl]

/-- An operation that the guard admits keeps the book indexed. -/
theorem indexed_step {op : BookOp} (h : b.Indexed) (hadm : b.Admits op) :
    (b.step op).Indexed ∧
      ∀ id, op = .remove id → ∀ e ∈ (b.step op).values, e.offerId ≠ id := by
  cases op with
  | insert entry =>
    refine ⟨?_, fun id hid => (by cases hid)⟩
    unfold step
    split
    next op e heq => cases heq; split; exacts [h.insert hadm ‹_›, h]
    next op id heq => cases heq
  | remove offerId =>
    cases hrem : b.removeOffer offerId with
    | ok b' =>
      have hstep : b.step (.remove offerId) = b' := by simp only [step, hrem]
      rw [hstep]
      obtain ⟨hidx, hgone⟩ := h.remove hrem
      exact ⟨hidx, fun id hid => (by cases hid; exact hgone)⟩
    | error err =>
      have hstep : b.step (.remove offerId) = b := by simp only [step, hrem]
      rw [hstep]
      refine ⟨h, ?_⟩
      intro id hid e he heq
      cases hid
      obtain ⟨b', hb', -⟩ := removeOffer_ok (heq ▸ h.contains he)
      rw [hrem] at hb'; cases hb'

/-- A new entry, and every entry under another key or on the other side, is in the book. -/
theorem mem_values_insertOffer {b' : OfferBook} (hp : entry.price = .ok price)
    (hins : b.insertOffer entry = .ok b') : entry ∈ b'.values ∧
      ∀ e ∈ b.values, ¬ (e.offer.type = entry.offer.type ∧ e.price = .ok price) →
        e ∈ b'.values := by
  cases ht : entry.offer.type with
  | buy =>
    rw [insertOffer_buy hp ht] at hins
    cases hins
    refine ⟨mem_values.mpr (.inl (OfferView.self_mem_values_insert hp ht)), ?_⟩
    intro e he hne
    rcases mem_values.mp he with he | he
    · have hprice : e.price ≠ .ok price := fun h => hne ⟨OfferView.values_type he, h⟩
      exact mem_values.mpr (.inl (OfferView.mem_values_insert_of_price hp ht he hprice))
    · exact mem_values.mpr (.inr he)
  | sell =>
    rw [insertOffer_sell hp ht] at hins
    cases hins
    refine ⟨mem_values.mpr (.inr (OfferView.self_mem_values_insert hp ht)), ?_⟩
    intro e he hne
    rcases mem_values.mp he with he | he
    · exact mem_values.mpr (.inl he)
    · have hprice : e.price ≠ .ok price := fun h => hne ⟨OfferView.values_type he, h⟩
      exact mem_values.mpr (.inr (OfferView.mem_values_insert_of_price hp ht he hprice))

theorem of_mem_values_insertOffer {b' : OfferBook} (hins : b.insertOffer entry = .ok b')
    (he : e ∈ b'.values) : e = entry ∨ e ∈ b.values := by
  cases hp : entry.price with
  | error err => rw [insertOffer_error hp] at hins; cases hins
  | ok price =>
    cases ht : entry.offer.type with
    | buy =>
      rw [insertOffer_buy hp ht] at hins
      cases hins
      rcases mem_values.mp he with he | he
      · exact (OfferView.of_mem_values_insert hp ht he).imp_right fun he => mem_values.mpr (.inl he)
      · exact .inr (mem_values.mpr (.inr he))
    | sell =>
      rw [insertOffer_sell hp ht] at hins
      cases hins
      rcases mem_values.mp he with he | he
      · exact .inr (mem_values.mpr (.inl he))
      · exact (OfferView.of_mem_values_insert hp ht he).imp_right fun he => mem_values.mpr (.inr he)

theorem of_mem_values_removeOffer {b' : OfferBook} {offerId : Nat}
    (hrem : b.removeOffer offerId = .ok b') (he : e ∈ b'.values) : e ∈ b.values := by
  unfold removeOffer at hrem
  split at hrem
  next hb =>
    obtain ⟨p, hp⟩ := OfferView.removeOffer_ok hb
    rw [hp] at hrem
    cases hrem
    exact mem_values.mpr ((mem_values.mp he).imp_left OfferView.of_mem_values_erase)
  next =>
    split at hrem
    next hs =>
      obtain ⟨p, hp⟩ := OfferView.removeOffer_ok hs
      rw [hp] at hrem
      cases hrem
      exact mem_values.mpr ((mem_values.mp he).imp_right OfferView.of_mem_values_erase)
    next => cases hrem

/-! ## Entries by id -/

structure Held (b : OfferBook) : Prop where
  buys : b.buys.Held
  sells : b.sells.Held

theorem held_empty : empty.Held where
  buys _ _ h := by cases h
  sells _ _ h := by cases h

theorem Held.getOfferById {id : Nat} (h : b.Held) (hget : b.getOfferById id = some entry) :
    entry ∈ b.values := by
  rcases Option.or_eq_some_iff.mp hget with hget | ⟨-, hget⟩
  · exact mem_values.mpr (.inl (h.buys id entry hget))
  · exact mem_values.mpr (.inr (h.sells id entry hget))

theorem getOfferById_offerId {id : Nat} (hget : b.getOfferById id = some entry) :
    entry.offerId = id := by
  rcases Option.or_eq_some_iff.mp hget with hget | ⟨-, hget⟩
  · obtain ⟨-, -, hid, -⟩ := b.buys.indexed id entry hget
    exact hid
  · obtain ⟨-, -, hid, -⟩ := b.sells.indexed id entry hget
    exact hid

theorem Held.insertOffer {b' : OfferBook} (h : b.Held) (hins : b.insertOffer entry = .ok b') :
    b'.Held := by
  cases hp : entry.price with
  | error err => rw [insertOffer_error hp] at hins; cases hins
  | ok price =>
    cases ht : entry.offer.type with
    | buy =>
      rw [insertOffer_buy hp ht] at hins
      cases hins
      exact ⟨h.buys.insert hp ht, h.sells⟩
    | sell =>
      rw [insertOffer_sell hp ht] at hins
      cases hins
      exact ⟨h.buys, h.sells.insert hp ht⟩

/-- The book holds the id exactly when it finds an entry by it. -/
theorem contains_iff {id : Nat} : b.contains id = true ↔ ∃ e, b.getOfferById id = some e := by
  rw [← Option.isSome_iff_exists, getOfferById, Option.isSome_or, Bool.or_eq_true]
  unfold contains OfferView.getOfferById
  rw [Bool.or_eq_true, decide_eq_true_eq, decide_eq_true_eq, AList.lookup_isSome,
    AList.lookup_isSome]

theorem Held.removeOffer {id : Nat} (h : b.Held) (hget : b.getOfferById id = some entry) :
    ∃ b', b.removeOffer id = .ok b' ∧ b'.Held ∧
      ∀ e, e ∈ b'.values ↔ e ∈ b.values ∧ e ≠ entry := by
  unfold OfferBook.removeOffer
  rcases Option.or_eq_some_iff.mp hget with hbuy | ⟨hnone, hsell⟩
  · obtain ⟨v, hv, hheld, hvalues⟩ := h.buys.removeOffer hbuy
    have hid : id ∈ b.buys.offerEntriesById :=
      AList.lookup_isSome.mp (Option.isSome_of_eq_some hbuy)
    rw [if_pos hid, hv]
    refine ⟨_, rfl, ⟨hheld, h.sells⟩, ?_⟩
    intro e
    have hother (he : e ∈ b.sells.values) : e ≠ entry := by
      rintro rfl
      have hsell := OfferView.values_type he
      rw [OfferView.values_type (h.buys id e hbuy)] at hsell
      cases hsell
    rw [mem_values, mem_values, hvalues, or_and_right, and_iff_left_of_imp hother]
  · obtain ⟨v, hv, hheld, hvalues⟩ := h.sells.removeOffer hsell
    have hid : id ∉ b.buys.offerEntriesById := AList.lookup_eq_none.mp hnone
    have hid' : id ∈ b.sells.offerEntriesById :=
      AList.lookup_isSome.mp (Option.isSome_of_eq_some hsell)
    rw [if_neg hid, if_pos hid', hv]
    refine ⟨_, rfl, ⟨h.buys, hheld⟩, ?_⟩
    intro e
    have hother (he : e ∈ b.buys.values) : e ≠ entry := by
      rintro rfl
      have hbuy := OfferView.values_type he
      rw [OfferView.values_type (h.sells id e hsell)] at hbuy
      cases hbuy
    rw [mem_values, mem_values, hvalues, or_and_right, and_iff_left_of_imp hother]

/-- A limit order is matched with entries of the book. -/
theorem of_matchLimit {type : OfferType} {amount rest : Number} {taken : List OfferBookEntry}
    (h : matchLimit b price type amount = .ok (taken, rest)) (he : e ∈ taken) : e ∈ b.values := by
  have hview : ∀ {type : OfferType} {v : OfferView type}, e ∈ v.getOffersByPrice price →
      e ∈ v.values := fun he =>
    List.map_subset _ (List.filter_subset_self _)
      ((OfferView.getOffersByPrice_sublist _ price).subset he)
  have hmem := (List.perm_insertionSort _ _).mem_iff.mp ((takeFitting_sublist h).subset he)
  cases type with
  | buy => exact mem_values.mpr (.inr (hview hmem))
  | sell => exact mem_values.mpr (.inl (hview hmem))

/-- An entry that the guard does not admit is in the book beside the one before. -/
theorem not_indexed_step {op : BookOp} (hadm : ¬ b.Admits op) : ¬ (b.step op).Indexed := by
  cases op with
  | remove offerId => exact fun _ => hadm trivial
  | insert entry =>
    simp only [Admits, not_forall] at hadm
    obtain ⟨price, hp, e, he, hid, hne⟩ := hadm
    obtain ⟨b', hins⟩ := insertOffer_ok (b := b) hp
    have hstep : b.step (.insert entry) = b' := by simp only [step, hins]
    rw [hstep]
    intro hidx
    obtain ⟨hentry, hrest⟩ := mem_values_insertOffer hp hins
    have heq : e = entry := List.inj_on_of_nodup_map hidx.once (hrest e he hne) hentry hid
    exact hne ⟨heq ▸ rfl, heq ▸ hp⟩

/-- The book stays indexed, and a removed offer leaves nothing in it, exactly when no id is
inserted while it is in the book on the other side or at another price. -/
theorem book_indexed_iff (ops : List BookOp) :
    (∀ pre, pre <+: ops → (run pre).Indexed ∧ Removed pre (run pre)) ↔
      LTS.AllSteps step Admits .empty ops := by
  refine LTS.prefixes_iff_allSteps (I := fun _ => True)
    (P := fun pre b => b.Indexed ∧ Removed pre b) trivial (fun _ _ _ => trivial)
    ⟨indexed_empty, fun id h => (by cases h)⟩ ?_ ?_ ops
  · rintro pre b op - ⟨h, -⟩ hadm
    obtain ⟨hidx, hgone⟩ := indexed_step h hadm
    refine ⟨hidx, fun id hlast => hgone id ?_⟩
    rw [List.getLast?_concat] at hlast
    exact Option.some.inj hlast
  · rintro pre b op - - hadm ⟨hidx, -⟩
    exact not_indexed_step hadm hidx

/-- The entry of a `SELL` of `10` with the id `7`, broadcast by a peer. -/
def ghost (quoteAmount : Nat) : OfferBookEntry where
  offer := { offerId := 7, type := .sell, baseAmount := 10, quoteAmount := quoteAmount,
             timeoutDate := 100 }
  initiator := 5
  commitmentProof := { commitmentSig := none, secret := 3, secretHash := 3, offerId := 7,
                       signature := none }

/-- An id published at two prices and then removed is still in the book. -/
theorem ghost_not_removed : ¬ Removed [.insert (ghost 20), .insert (ghost 30), .remove 7]
    (run [.insert (ghost 20), .insert (ghost 30), .remove 7]) := by
  intro h
  have hleft : (run [.insert (ghost 20), .insert (ghost 30), .remove 7]).values.any
      (fun e => e.offerId = 7) = true := by decide +kernel
  obtain ⟨e, he, hid⟩ := List.any_eq_true.mp hleft
  exact h 7 rfl e he (of_decide_eq_true hid)

end OfferBook

end RaidexNode
end Raidex
