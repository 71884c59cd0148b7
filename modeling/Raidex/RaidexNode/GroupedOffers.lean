import Mathlib.Algebra.BigOperators.Ring.Finset
import Raidex.Lib.ListUpdate
import Raidex.RaidexNode.OfferGrouping

/-!
# Raidex.RaidexNode.GroupedOffers

The grouping of the offers of the book by price.

* `PriceFits`: the price of an offer is a number whose multiple of `10 ^ -places` below has at most
  28 digits. `quantizedPrice_ok_iff`: these are the offers whose price can be quantized.
* `groupOffers_eq`: the groups, each with the sum of the amounts and the timeouts of its offers.
* `GroupsBook`: what the groups say about the offers. `GroupsBook.view_eq`: it decides them, so the
  order of the offers does not matter.
-/

namespace Raidex
namespace RaidexNode

open Grouping
open Binary64 (Representable)

/-- An entry of the book with the given terms. -/
def bookEntry (offerId baseAmount quoteAmount timeoutDate : ℕ) : OfferBookEntry where
  offer := ⟨offerId, .buy, baseAmount, quoteAmount, timeoutDate⟩
  initiator := 1
  commitmentProof := ⟨none, 1, 1, offerId, none⟩

/-! ## Quantized prices -/

/-- The greatest multiple of `10 ^ -places` up to a price. -/
def quantum (places : ℕ) (p : ℚ) : ℚ := ⌊p * 10 ^ places⌋ / 10 ^ places

section

variable {places : ℕ} {p : ℚ}

theorem ten_pow_pos (places : ℕ) : (0 : ℚ) < 10 ^ places := pow_pos (by norm_num) places

theorem quantum_le : quantum places p ≤ p :=
  (div_le_iff₀ (ten_pow_pos places)).mpr (Int.floor_le _)

theorem lt_quantum_add : p < quantum places p + 1 / 10 ^ places := by
  rw [quantum, ← add_div, lt_div_iff₀ (ten_pow_pos places)]
  exact Int.lt_floor_add_one _

/-- Only one multiple has a price between itself and the next. -/
theorem quantum_eq {n : ℤ} (hle : (n / 10 ^ places : ℚ) ≤ p)
    (hlt : p < n / 10 ^ places + 1 / 10 ^ places) : quantum places p = n / 10 ^ places := by
  have hpos := ten_pow_pos places
  rw [div_le_iff₀ hpos] at hle
  rw [← add_div, lt_div_iff₀ hpos] at hlt
  rw [quantum, Int.floor_eq_iff.mpr ⟨hle, hlt⟩]

end

/-- The price of an offer as a number, where the source computes a finite one. -/
def exactPrice (o : BasicOffer ℕ) : Option ℚ :=
  (Pricing.offerPrice o : Except PyError Double).toOption.bind Double.exact

/-- The price of an offer, quantized, has at most 28 digits. -/
def PriceFits (places : ℕ) (o : BasicOffer ℕ) : Prop :=
  ∃ p, exactPrice o = some p ∧ |⌊p * 10 ^ places⌋| < 10 ^ 28

theorem quantizedPrice_ok {places : ℕ} {o : BasicOffer ℕ} {p : ℚ} (hp : exactPrice o = some p)
    (hfits : |⌊p * 10 ^ places⌋| < 10 ^ 28) :
    quantizedPrice getcontext Double places o = .ok (quantum places p) := by
  unfold exactPrice at hp
  cases hprice : (Pricing.offerPrice o : Except PyError Double) with
  | error e => rw [hprice] at hp; cases hp
  | ok f =>
    rw [hprice] at hp
    have hquantize : getcontext.quantize places p = some (quantum places p) :=
      if_pos (decide_eq_true hfits)
    exact quantizedPrice_eq getcontext hprice (toDecimal_eq_ok.mpr hp) hquantize

/-- The prices that can be quantized are those that fit. -/
theorem quantizedPrice_ok_iff {places : ℕ} {o : BasicOffer ℕ} :
    (∃ q, quantizedPrice getcontext Double places o = .ok q) ↔ PriceFits places o := by
  constructor
  · rintro ⟨q, hq⟩
    obtain ⟨f, hf, hq⟩ := Except.bind_eq_ok.mp hq
    obtain ⟨p, hp, hq⟩ := Except.bind_eq_ok.mp hq
    have hexact : f.exact = some p := toDecimal_eq_ok.mp hp
    refine ⟨p, ?_, ?_⟩
    · rw [exactPrice, hf]
      exact hexact
    · by_contra hfits
      have hquantize : getcontext.quantize places p = none :=
        if_neg fun h => hfits (of_decide_eq_true h)
      rw [hquantize] at hq
      cases hq
  · rintro ⟨p, hp, hfits⟩
    exact ⟨_, quantizedPrice_ok hp hfits⟩

/-! ## Groups -/

/-- The offers whose price is the one of a group, or above it and below the next. -/
def inGroup (places : ℕ) (q : ℚ) (e : OfferBookEntry) : Bool :=
  (exactPrice e.offer).any fun p => q ≤ p ∧ p < q + 1 / 10 ^ places

def members (places : ℕ) (offers : List OfferBookEntry) (q : ℚ) : List OfferBookEntry :=
  offers.filter (inGroup places q)

def timeouts (offers : List OfferBookEntry) : List ℕ := offers.map fun e => e.offer.timeoutDate

/-- The amount and the timeouts of a group are those of its offers. The average is the mean rounded
to a `float`. -/
structure Summarizes (offers : List OfferBookEntry) (g : GroupedOffer) : Prop where
  amount : g.amount = (offers.map fun e => e.baseAmount).sum
  minTimeout : g.minTimeout = (timeouts offers).min?
  maxTimeout : g.maxTimeout = (timeouts offers).max?
  avgTimeout : g.avgTimeout Double = Double.divideInt (timeouts offers).sum offers.length

/-- The mean of the timeouts is between the least and the greatest, and so is the average where
these are `float`s. -/
structure Averages (g : GroupedOffer) (lo hi : ℕ) : Prop where
  minTimeout : g.minTimeout = some lo
  maxTimeout : g.maxTimeout = some hi
  mean : (lo : ℚ) ≤ (g.timeouts.sum : ℚ) / g.timeouts.length ∧
    (g.timeouts.sum : ℚ) / g.timeouts.length ≤ hi
  average : hi ≤ 2 ^ 1023 → ∃ f v, g.avgTimeout Double = .ok f ∧ f.exact = some v ∧
    (Representable lo → lo ≤ v) ∧ (Representable hi → v ≤ hi)

/-- The groups partition the offers by price. -/
structure GroupsBook (places : ℕ) (offers : List OfferBookEntry) (gs : List GroupedOffer) :
    Prop where
  increasing : gs.Pairwise fun g g' => g.price < g'.price
  multiple : ∀ g ∈ gs, ∃ n : ℤ, g.price = n / 10 ^ places
  belongs : ∀ e ∈ offers, ∃! g, g ∈ gs ∧ inGroup places g.price e
  nonempty : ∀ g ∈ gs, members places offers g.price ≠ []
  summarizes : ∀ g ∈ gs, Summarizes (members places offers g.price) g
  averages : ∀ g ∈ gs, ∃ lo hi, Averages g lo hi
  total : (gs.map fun g => g.amount).sum = (offers.map fun e => e.baseAmount).sum

section

variable (price : OfferBookEntry → ℚ) (places : ℕ)

def priceKey (e : OfferBookEntry) : ℚ := quantum places (price e)

def openOffers (e : OfferBookEntry) : GroupedOffer := .new (priceKey price places e)

def addEntry (e : OfferBookEntry) (g : GroupedOffer) : GroupedOffer :=
  g.add e.baseAmount e.offer.timeoutDate

/-- The group of an offer. -/
def groupOf (offers : List OfferBookEntry) (e : OfferBookEntry) : GroupedOffer :=
  total (priceKey price places) (openOffers price places) addEntry offers e

def groupedOffers (offers : List OfferBookEntry) : List GroupedOffer :=
  ((group (priceKey price places) (openOffers price places) addEntry offers).map
    Prod.snd).insertionSort fun g g' => g.price ≤ g'.price

variable {price places} {offers : List OfferBookEntry} {e : OfferBookEntry}

theorem foldl_addEntry (es : List OfferBookEntry) (g : GroupedOffer) :
    es.foldl (fun g e => addEntry e g) g =
      ⟨g.price, g.amount + (es.map fun e => e.baseAmount).sum, g.timeouts ++ timeouts es⟩ := by
  induction es generalizing g with
  | nil =>
    rw [timeouts, List.map_nil, List.map_nil, List.append_nil]
    rfl
  | cons e es ih =>
    rw [List.foldl_cons, ih]
    simp only [addEntry, GroupedOffer.add, timeouts, List.map_cons, List.sum_cons, Nat.add_assoc,
      List.append_assoc, List.singleton_append]

theorem groupOf_eq : groupOf price places offers e =
    ⟨priceKey price places e,
      ((offers.filter fun e' => priceKey price places e' = priceKey price places e).map
        fun e => e.baseAmount).sum,
      timeouts (offers.filter fun e' => priceKey price places e' = priceKey price places e)⟩ := by
  rw [groupOf, total, foldl_addEntry]
  simp only [openOffers, GroupedOffer.new, Nat.zero_add, List.nil_append]

/-- The groups are those of the offers, one for each key. -/
theorem mem_groupedOffers {g : GroupedOffer} :
    g ∈ groupedOffers price places offers ↔
      ∃ e ∈ offers, g = groupOf price places offers e := by
  rw [groupedOffers, (List.perm_insertionSort _ _).mem_iff, group_eq, List.map_map, List.mem_map]
  constructor
  · rintro ⟨e, he, rfl⟩
    exact ⟨e, firsts_subset he, rfl⟩
  · rintro ⟨e, he, rfl⟩
    obtain ⟨e', he', hkey⟩ := List.mem_map.mp (mem_keys_iff.mpr
      (List.mem_map_of_mem (f := priceKey price places) he))
    refine ⟨e', he', ?_⟩
    show groupOf price places offers e' = groupOf price places offers e
    rw [groupOf_eq, groupOf_eq, hkey]

/-- No two groups have one price. -/
theorem nodup_prices :
    ((groupedOffers price places offers).map fun g => g.price).Nodup := by
  have hkeys : ((group (priceKey price places) (openOffers price places) addEntry offers).map
      Prod.snd).map (fun g => g.price) =
        (Dedup.firsts (priceKey price places) [] offers).map (priceKey price places) := by
    rw [group_eq, List.map_map, List.map_map]
    refine List.map_congr_left ?_
    intro e _
    show (groupOf price places offers e).price = _
    rw [groupOf_eq]
  refine ((List.perm_insertionSort _ _).map _).nodup_iff.mpr ?_
  rw [hkeys]
  exact (Dedup.firsts_nodup [] offers).1

theorem groupedOffers_increasing :
    (groupedOffers price places offers).Pairwise fun g g' => g.price < g'.price := by
  have hsorted : (groupedOffers price places offers).Pairwise fun g g' => g.price ≤ g'.price := by
    unfold groupedOffers
    have htrans : IsTrans GroupedOffer fun g g' => g.price ≤ g'.price :=
      ⟨fun _ _ _ h h' => le_trans h h'⟩
    have htotal : Std.Total fun g g' : GroupedOffer => g.price ≤ g'.price :=
      ⟨fun g g' => le_total g.price g'.price⟩
    exact List.pairwise_insertionSort _ _
  have hne : (groupedOffers price places offers).Pairwise fun g g' => g.price ≠ g'.price :=
    List.pairwise_map.mp nodup_prices
  exact (hsorted.and hne).imp fun h => lt_of_le_of_ne h.1 h.2

end

/-! ## The book in groups -/

theorem averages_of_timeouts {g : GroupedOffer} (h : g.timeouts ≠ []) :
    ∃ lo hi, Averages g lo hi := by
  obtain ⟨lo, hlo⟩ := Option.isSome_iff_exists.mp (List.isSome_min?_of_ne_nil h)
  obtain ⟨hi, hhi⟩ := Option.isSome_iff_exists.mp (List.isSome_max?_of_ne_nil h)
  have hmean : (lo : ℚ) ≤ (g.timeouts.sum : ℚ) / g.timeouts.length ∧
      (g.timeouts.sum : ℚ) / g.timeouts.length ≤ hi := by
    have hlow : ∀ x ∈ g.timeouts.map (Nat.cast : ℕ → ℚ), (lo : ℚ) ≤ x :=
      List.forall_mem_map.mpr fun t ht => by exact_mod_cast (List.min?_eq_some_iff.mp hlo).2 t ht
    have hhigh : ∀ x ∈ g.timeouts.map (Nat.cast : ℕ → ℚ), x ≤ hi :=
      List.forall_mem_map.mpr fun t ht => by exact_mod_cast (List.max?_eq_some_iff.mp hhi).2 t ht
    have hcast := List.mean_between (fun hnil => h (List.map_eq_nil_iff.mp hnil)) hlow hhigh
    rwa [List.length_map, ← Nat.cast_list_sum] at hcast
  refine ⟨lo, hi, hlo, hhi, hmean, ?_⟩
  intro hle
  have hbound : (g.timeouts.sum : ℚ) / g.timeouts.length ≤ 2 ^ 1023 :=
    hmean.2.trans (by exact_mod_cast hle)
  obtain ⟨f, v, hf, hv, hside⟩ := Double.divideInt_ok (List.length_pos_of_ne_nil h) hbound
  exact ⟨f, v, hf, hv, fun hlo => (hside lo hlo).1 hmean.1, fun hhi => (hside hi hhi).2 hmean.2⟩

section

variable {price : OfferBookEntry → ℚ} {places : ℕ} {offers : List OfferBookEntry}

theorem groupOffers_eq {precision : Option ℕ}
    (h : ∀ e ∈ offers,
      quantizedPrice getcontext Double (precision.getD priceGroupPrecision) e.offer =
      .ok (priceKey price (precision.getD priceGroupPrecision) e)) :
    groupOffers Double getcontext offers precision =
      .ok (groupedOffers price (precision.getD priceGroupPrecision) offers) := by
  have hloop : offers.foldlM (fun groups offer => do
      return addToGroup groups offer (← quantizedPrice getcontext Double
        (precision.getD priceGroupPrecision) offer.offer)) [] =
      (.ok (group (priceKey price (precision.getD priceGroupPrecision))
        (openOffers price (precision.getD priceGroupPrecision)) addEntry offers) :
        Except PyError (List (ℚ × GroupedOffer))) := by
    refine Except.foldlM_ok (fun groups e he => ?_) []
    rw [h e he]
    rfl
  rw [groupOffers]
  simp only [hloop]
  rfl

/-- The offers of a group are those with its key. -/
theorem inGroup_iff (h : ∀ e ∈ offers, exactPrice e.offer = some (price e)) {e e' : OfferBookEntry}
    (he' : e' ∈ offers) :
    inGroup places (priceKey price places e) e' ↔
      priceKey price places e' = priceKey price places e := by
  rw [inGroup, h e' he', Option.any_some, decide_eq_true_eq]
  constructor
  · rintro ⟨hle, hlt⟩
    exact quantum_eq hle hlt
  · intro heq
    rw [← heq]
    exact ⟨quantum_le, lt_quantum_add⟩

theorem members_priceKey (h : ∀ e ∈ offers, exactPrice e.offer = some (price e))
    (e : OfferBookEntry) : members places offers (priceKey price places e) =
      offers.filter fun e' => priceKey price places e' = priceKey price places e := by
  refine List.filter_congr ?_
  intro e' he'
  rw [Bool.eq_iff_iff, inGroup_iff h he', decide_eq_true_eq]

theorem groupedOffers_groupsBook (h : ∀ e ∈ offers, exactPrice e.offer = some (price e)) :
    GroupsBook places offers (groupedOffers price places offers) := by
  have hgroup {e : OfferBookEntry} : groupOf price places offers e =
      ⟨priceKey price places e,
        ((members places offers (priceKey price places e)).map fun e => e.baseAmount).sum,
        timeouts (members places offers (priceKey price places e))⟩ := by
    rw [groupOf_eq, members_priceKey h]
  have hmember {e : OfferBookEntry} (he : e ∈ offers) :
      e ∈ members places offers (priceKey price places e) :=
    List.mem_filter.mpr ⟨he, (inGroup_iff h he).mpr rfl⟩
  constructor
  · exact groupedOffers_increasing
  · intro g hg
    obtain ⟨e, -, rfl⟩ := mem_groupedOffers.mp hg
    rw [hgroup]
    exact ⟨_, rfl⟩
  · intro e he
    refine ⟨groupOf price places offers e, ⟨mem_groupedOffers.mpr ⟨e, he, rfl⟩, ?_⟩, ?_⟩
    · rw [hgroup]
      exact (inGroup_iff h he).mpr rfl
    · rintro g ⟨hg, hin⟩
      obtain ⟨e', -, rfl⟩ := mem_groupedOffers.mp hg
      rw [hgroup] at hin
      have hkey := (inGroup_iff h he).mp hin
      rw [groupOf_eq, groupOf_eq, hkey]
  · intro g hg
    obtain ⟨e, he, rfl⟩ := mem_groupedOffers.mp hg
    rw [hgroup]
    exact List.ne_nil_of_mem (hmember he)
  · intro g hg
    obtain ⟨e, -, rfl⟩ := mem_groupedOffers.mp hg
    rw [hgroup]
    refine ⟨rfl, rfl, rfl, ?_⟩
    show Double.divideInt _ (timeouts _).length = _
    rw [timeouts, List.length_map]
  · intro g hg
    obtain ⟨e, he, rfl⟩ := mem_groupedOffers.mp hg
    refine averages_of_timeouts ?_
    rw [hgroup]
    exact List.ne_nil_of_mem (List.mem_map_of_mem (hmember he))
  · rw [groupedOffers, ((List.perm_insertionSort _ _).map _).sum_eq, List.map_map]
    exact sum_group (w := fun g : GroupedOffer => g.amount) (fun _ => rfl) (fun _ _ => rfl) offers

end

namespace GroupsBook

variable {places : ℕ} {offers offers' : List OfferBookEntry} {gs gs' : List GroupedOffer}

/-- The prices of the groups are those that an offer is in the group of. -/
theorem mem_prices (h : GroupsBook places offers gs) {q : ℚ} :
    q ∈ gs.map (fun g => g.price) ↔
      (∃ n : ℤ, q = n / 10 ^ places) ∧ ∃ e ∈ offers, inGroup places q e := by
  constructor
  · intro hq
    obtain ⟨g, hg, rfl⟩ := List.mem_map.mp hq
    obtain ⟨e, he⟩ := List.exists_mem_of_ne_nil _ (h.nonempty g hg)
    exact ⟨h.multiple g hg, e, (List.mem_filter.mp he).1, (List.mem_filter.mp he).2⟩
  · rintro ⟨⟨n, rfl⟩, e, he, hin⟩
    obtain ⟨g, ⟨hg, hin'⟩, -⟩ := h.belongs e he
    obtain ⟨n', hn'⟩ := h.multiple g hg
    rw [hn'] at hin'
    obtain ⟨p, hp, hbounds⟩ := (Option.any_eq_true _ _).mp hin
    obtain ⟨p', hp', hbounds'⟩ := (Option.any_eq_true _ _).mp hin'
    obtain rfl : p = p' := Option.some.inj (hp.symm.trans hp')
    rw [decide_eq_true_eq] at hbounds hbounds'
    refine List.mem_map.mpr ⟨g, hg, ?_⟩
    rw [hn', ← quantum_eq hbounds.1 hbounds.2, ← quantum_eq hbounds'.1 hbounds'.2]

end GroupsBook

/-- What a group shows. -/
def GroupedOffer.view (g : GroupedOffer) :
    ℚ × ℕ × Option ℕ × Except PyError Double × Option ℕ :=
  (g.price, g.amount, g.minTimeout, g.avgTimeout Double, g.maxTimeout)

section

variable {places : ℕ} {offers offers' : List OfferBookEntry} {gs gs' : List GroupedOffer}

/-- Groups of the same offers in another order show the same. -/
theorem GroupsBook.view_eq (h : GroupsBook places offers gs) (h' : GroupsBook places offers' gs')
    (hperm : offers.Perm offers') : gs.map GroupedOffer.view = gs'.map GroupedOffer.view := by
  let viewOf (es : List OfferBookEntry) (q : ℚ) :
      ℚ × ℕ × Option ℕ × Except PyError Double × Option ℕ :=
    (q, (es.map fun e => e.baseAmount).sum, (timeouts es).min?,
      Double.divideInt (timeouts es).sum es.length, (timeouts es).max?)
  have hview {os : List OfferBookEntry} {l : List GroupedOffer} (hl : GroupsBook places os l) :
      l.map GroupedOffer.view =
        (l.map fun g => g.price).map fun q => viewOf (members places os q) q := by
    rw [List.map_map]
    refine List.map_congr_left ?_
    intro g hg
    have hsum := hl.summarizes g hg
    rw [GroupedOffer.view, hsum.amount, hsum.minTimeout, hsum.maxTimeout, hsum.avgTimeout]
    rfl
  have hprices : (gs.map fun g => g.price) = gs'.map fun g => g.price := by
    refine List.Pairwise.eq_of_mem_iff (r := (· < ·)) (List.pairwise_map.mpr h.increasing)
      (List.pairwise_map.mpr h'.increasing) fun q => ?_
    rw [h.mem_prices, h'.mem_prices]
    simp only [hperm.mem_iff]
  rw [hview h, hview h', hprices]
  refine List.map_congr_left ?_
  intro q _
  have hmembers : (members places offers q).Perm (members places offers' q) := hperm.filter _
  have htimeouts :
      (timeouts (members places offers q)).Perm (timeouts (members places offers' q)) :=
    hmembers.map _
  simp only [viewOf, (hmembers.map _).sum_eq, htimeouts.min?_eq, htimeouts.max?_eq,
    htimeouts.sum_eq, hmembers.length_eq]

end

/-- Offers with prices that fit the context are grouped into a partition by price, and the groups
show the same for every order of the offers. -/
theorem offers_grouped (offers : List OfferBookEntry) (precision : Option ℕ)
    (h : ∀ e ∈ offers, PriceFits (precision.getD priceGroupPrecision) e.offer) :
    ∃ gs, groupOffers Double getcontext offers precision = .ok gs ∧
      GroupsBook (precision.getD priceGroupPrecision) offers gs ∧
      ∀ offers', offers.Perm offers' → ∃ gs',
        groupOffers Double getcontext offers' precision = .ok gs' ∧
        gs'.map GroupedOffer.view = gs.map GroupedOffer.view := by
  choose! price hprice hfits using h
  have hgroups {os : List OfferBookEntry} (hos : ∀ e ∈ os, e ∈ offers) :
      groupOffers Double getcontext os precision =
        .ok (groupedOffers price (precision.getD priceGroupPrecision) os) ∧
      GroupsBook (precision.getD priceGroupPrecision) os
        (groupedOffers price (precision.getD priceGroupPrecision) os) :=
    ⟨groupOffers_eq fun e he => quantizedPrice_ok (hprice e (hos e he)) (hfits e (hos e he)),
      groupedOffers_groupsBook fun e he => hprice e (hos e he)⟩
  obtain ⟨hok, hbook⟩ := hgroups fun _ => id
  refine ⟨_, hok, hbook, ?_⟩
  intro offers' hperm
  obtain ⟨hok', hbook'⟩ := hgroups fun e he => hperm.mem_iff.mpr he
  exact ⟨_, hok', hbook'.view_eq hbook hperm.symm⟩

/-- Two offers at prices that are rounded to one, and one at another. -/
theorem three_offers_grouped : ∃ e e' e'' : OfferBookEntry,
    ∃ gs, groupOffers Double getcontext [e, e', e''] none = .ok gs ∧
      GroupsBook priceGroupPrecision [e, e', e''] gs ∧
      ∀ offers', [e, e', e''].Perm offers' →
        ∃ gs', groupOffers Double getcontext offers' none = .ok gs' ∧
          gs'.map GroupedOffer.view = gs.map GroupedOffer.view :=
  ⟨bookEntry 7 1000 2010 107, bookEntry 8 1000 2000 108, bookEntry 9 10 25 109,
    offers_grouped _ none (List.forall_mem_cons.mpr
      ⟨⟨_, rfl, by decide +kernel⟩, List.forall_mem_cons.mpr ⟨⟨_, rfl, by decide +kernel⟩,
        List.forall_mem_singleton.mpr ⟨_, rfl, by decide +kernel⟩⟩⟩)⟩

/-- The average of a timeout with more than 53 bits is less than the timeout. -/
theorem average_rounded :
    (groupOffers Double getcontext [bookEntry 7 10 10 (2 ^ 53 + 1)] none).toOption.map
      (fun gs => gs.map fun g =>
        (g.minTimeout, (g.avgTimeout Double).toOption.bind Double.exact)) =
      some [(some (2 ^ 53 + 1), some (2 ^ 53))] := by
  decide +kernel

end RaidexNode
end Raidex
