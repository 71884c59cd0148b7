import Raidex.RaidexNode.OfferGrouping

/-!
# Raidex.RaidexNode.RecentTrades

The grouping of trades, and the one that stops after a number of groups.

* `groupTradesLoop_all`, `groupTradesLoop_chunk`: the loops are those of the library when the price
  and the bin of every trade can be computed; the unlimited one returns only then.
* `total_amount`, `total_key`: what is in the group of a trade.
* `tradeKey`: the quantized price, the bin and the type of a trade; the loops compare the price as a
  `float`.
* `recent_groups_iff`: the loop that stops agrees with the full grouping exactly when no trade that
  it leaves out has the key of a group that it returns, and no other key has the same `float`.
-/

namespace Raidex
namespace RaidexNode

open Grouping

section

variable {F : Type} [Floats F] [DecidableEq F] {ctx : Decimal.Context} {places : ℕ} {interval : ℤ}
  {bucket : Trade → ℚ × ℤ} {trades : List Trade}

def openGroup (bucket : Trade → ℚ × ℤ) (t : Trade) : GroupedTrade :=
  .new (bucket t).1 (bucket t).2 t.offer.offerId t.offer.type

def addTrade (t : Trade) (g : GroupedTrade) : GroupedTrade := g.add t.offer.baseAmount

/-- The quantized price, the bin and the type. -/
def GroupedTrade.key (g : GroupedTrade) : ℚ × ℤ × OfferType := (g.price, g.timestamp, g.type)

def groupKey (bucket : Trade → ℚ × ℤ) (t : Trade) : ℚ × ℤ × OfferType :=
  ((bucket t).1, (bucket t).2, t.offer.type)

/-- The key as the dictionary has it. -/
def floatKey (F : Type) [Floats F] (k : ℚ × ℤ × OfferType) : GroupKey F :=
  (Floats.ofDecimal k.1, k.2)

variable (F) in
def keyOf (bucket : Trade → ℚ × ℤ) (t : Trade) : GroupKey F := floatKey F (groupKey bucket t)

theorem groupTradesLoop_all (h : ∀ t ∈ trades, tradeBucket F ctx places interval t = .ok (bucket t))
    (groups : List (GroupKey F × GroupedTrade)) :
    groupTradesLoop F ctx none places interval trades groups =
      .ok (trades.foldl (insertItem (keyOf F bucket) (openGroup bucket) addTrade) groups) := by
  induction trades generalizing groups with
  | nil => rfl
  | cons t trades ih =>
    rw [groupTradesLoop, h t List.mem_cons_self, List.foldl_cons]
    exact ih (fun t ht => h t (List.mem_cons_of_mem _ ht)) _

theorem groupTradesLoop_chunk
    (h : ∀ t ∈ trades, tradeBucket F ctx places interval t = .ok (bucket t)) (n : ℕ)
    (groups : List (GroupKey F × GroupedTrade)) :
    groupTradesLoop F ctx (some n) places interval trades groups =
      .ok (chunked (keyOf F bucket) (openGroup bucket) addTrade n trades groups) := by
  induction trades generalizing groups with
  | nil => rfl
  | cons t trades ih =>
    have htail := ih fun t ht => h t (List.mem_cons_of_mem _ ht)
    rw [groupTradesLoop, h t List.mem_cons_self, chunked]
    simp only [Option.any_some, decide_eq_true_eq]
    show (if (insertItem (keyOf F bucket) (openGroup bucket) addTrade groups t).length = n + 1
      then _ else _) = _
    split
    · rfl
    · exact htail _

/-- The unlimited loop looks at every trade. -/
theorem buckets_of_groupTradesLoop {groups groups' : List (GroupKey F × GroupedTrade)}
    (h : groupTradesLoop F ctx none places interval trades groups = .ok groups') :
    ∀ t ∈ trades, ∃ b, tradeBucket F ctx places interval t = .ok b := by
  induction trades generalizing groups with
  | nil => exact fun t ht => absurd ht List.not_mem_nil
  | cons t trades ih =>
    rw [groupTradesLoop] at h
    obtain ⟨b, hb, h⟩ := Except.bind_eq_ok.mp h
    intro t' ht'
    rcases List.mem_cons.mp ht' with rfl | ht'
    · exact ⟨b, hb⟩
    · exact ih h t' ht'

/-! ## Groups -/

theorem foldl_addTrade (ts : List Trade) (g : GroupedTrade) :
    ts.foldl (fun g t => addTrade t g) g =
      { g with amount := g.amount + (ts.map fun t => t.offer.baseAmount).sum } := by
  induction ts generalizing g with
  | nil => rfl
  | cons t ts ih =>
    rw [List.foldl_cons, ih]
    simp only [addTrade, GroupedTrade.add, List.map_cons, List.sum_cons, Nat.add_assoc]

theorem total_amount (t : Trade) :
    (total (keyOf F bucket) (openGroup bucket) addTrade trades t).amount =
      ((trades.filter fun t' => keyOf F bucket t' = keyOf F bucket t).map
        fun t => t.offer.baseAmount).sum := by
  rw [total, foldl_addTrade]
  exact Nat.zero_add _

theorem total_key (t : Trade) :
    (total (keyOf F bucket) (openGroup bucket) addTrade trades t).key = groupKey bucket t := by
  rw [total, foldl_addTrade]
  rfl

/-- The grouped trades: one for each key, with the sum of the amounts. -/
theorem mem_group {g : GroupedTrade} :
    g ∈ (group (keyOf F bucket) (openGroup bucket) addTrade trades).map Prod.snd ↔
      ∃ t ∈ Dedup.firsts (keyOf F bucket) [] trades,
        g = total (keyOf F bucket) (openGroup bucket) addTrade trades t := by
  rw [group_eq, List.map_map, List.mem_map]
  exact exists_congr fun t => and_congr_right fun _ => eq_comm

theorem map_key_group :
    ((group (keyOf F bucket) (openGroup bucket) addTrade trades).map Prod.snd).map
      GroupedTrade.key = (Dedup.firsts (keyOf F bucket) [] trades).map (groupKey bucket) := by
  rw [group_eq, List.map_map, List.map_map]
  exact List.map_congr_left fun t _ => total_key t

end

/-! ## The most recent groups -/

/-- The quantized price, the bin and the type of a trade. There is none where the source raises. -/
def tradeKey (t : Trade) : Option (ℚ × ℤ × OfferType) :=
  (tradeBucket Double getcontext priceGroupPrecision timeGroupIntervalMs t).toOption.map
    fun b => (b.1, b.2, t.offer.type)

/-- The groups of the first keys from the newest trade on, at most `n`, with the amounts that they
have in the full grouping. -/
structure RecentGroups (trades : List Trade) (n : ℕ) (gs all : List GroupedTrade) : Prop where
  length : gs.length ≤ n
  keys : (gs.map fun g => some g.key).Perm (firstKeys tradeKey n trades.reverse)
  amounts : ∀ g ∈ gs, g.amount =
    ((trades.filter fun t => tradeKey t = some g.key).map fun t => t.offer.baseAmount).sum
  full : ∀ g ∈ gs, ∃ g' ∈ all, g'.key = g.key ∧ g'.amount = g.amount

section

variable {bucket : Trade → ℚ × ℤ} {trades : List Trade} {n : ℕ}

/-- An offer with a price has a base amount. -/
theorem pos_of_offerPrice {o : BasicOffer ℕ} {p : Double} (h : Pricing.offerPrice o = .ok p) :
    0 < o.baseAmount := by
  refine Nat.pos_of_ne_zero ?_
  intro hzero
  have hdiv : quotient o.quoteAmount o.baseAmount = .ok p := h
  rw [hzero, quotient] at hdiv
  obtain ⟨f, -, hdiv⟩ := Except.bind_eq_ok.mp hdiv
  obtain ⟨g, hg, hdiv⟩ := Except.bind_eq_ok.mp hdiv
  have hzero' : (Float.Model.ofInt 0).isInf = false := by decide +kernel
  obtain rfl : Float.Model.ofInt 0 = g := by
    rw [Nat.cast_zero, Double.ofInt, hzero'] at hg
    exact Except.ok.inj hg
  have hself : (Float.Model.ofInt 0 == Float.Model.ofInt 0) = true := by decide +kernel
  rw [Double.divide, if_pos hself] at hdiv
  cases hdiv

theorem pos_of_tradeBucket {places : ℕ} {interval : ℤ} {t : Trade} {b : ℚ × ℤ}
    (h : tradeBucket Double getcontext places interval t = .ok b) : 0 < t.offer.baseAmount := by
  obtain ⟨q, hq, -⟩ := Except.bind_eq_ok.mp h
  obtain ⟨p, hp, -⟩ := Except.bind_eq_ok.mp hq
  exact pos_of_offerPrice hp

/-- The groups of the trades, in the order of the source. -/
def groups (bucket : Trade → ℚ × ℤ) (trades : List Trade) : List GroupedTrade :=
  ((group (keyOf Double bucket) (openGroup bucket) addTrade trades).map Prod.snd).insertionSort
    GroupedTrade.le

/-- The price and the bin of every trade are those of `bucket`. -/
def Buckets (bucket : Trade → ℚ × ℤ) (trades : List Trade) : Prop :=
  ∀ t ∈ trades,
    tradeBucket Double getcontext priceGroupPrecision timeGroupIntervalMs t = .ok (bucket t)

theorem groupTrades_eq (h : Buckets bucket trades) :
    groupTrades Double getcontext trades none none none = .ok (groups bucket trades) := by
  rw [groupTrades]
  simp only [Option.getD_none]
  rw [groupTradesLoop_all h]
  rfl

theorem getNRecentTrades_eq (h : Buckets bucket trades) (n : ℕ) :
    getNRecentTrades Double getcontext trades n =
      .ok (groups bucket (taken (keyOf Double bucket) n trades.reverse)) := by
  rw [getNRecentTrades, groupTrades]
  simp only [Option.getD_none]
  rw [groupTradesLoop_chunk fun t ht => h t (List.mem_reverse.mp ht), chunked_eq]
  rfl

theorem tradeKey_eq (h : Buckets bucket trades) {t : Trade} (ht : t ∈ trades) :
    tradeKey t = some (groupKey bucket t) := by
  rw [tradeKey, h t ht]
  rfl

theorem mem_groups {g : GroupedTrade} : g ∈ groups bucket trades ↔
    ∃ t ∈ Dedup.firsts (keyOf Double bucket) [] trades,
      g = total (keyOf Double bucket) (openGroup bucket) addTrade trades t := by
  rw [groups, (List.perm_insertionSort _ _).mem_iff, mem_group]

theorem map_key_groups : ((groups bucket trades).map GroupedTrade.key).Perm
    ((Dedup.firsts (keyOf Double bucket) [] trades).map (groupKey bucket)) := by
  rw [← map_key_group]
  exact (List.perm_insertionSort _ _).map _

/-- The trades with a key are those before the loop stops and those that it leaves out. -/
theorem sum_filter (key : Trade → ℚ × ℤ × OfferType) (trades : List Trade) (p : Trade → Bool)
    (n : ℕ) :
    ((trades.filter p).map fun t => t.offer.baseAmount).sum =
      (((taken key n trades.reverse).filter p).map fun t => t.offer.baseAmount).sum +
      (((leftOut key n trades.reverse).filter p).map fun t => t.offer.baseAmount).sum := by
  have hperm : trades.Perm (taken key n trades.reverse ++ leftOut key n trades.reverse) := by
    rw [taken_append_leftOut]
    exact trades.reverse_perm.symm
  rw [((hperm.filter p).map _).sum_eq, List.filter_append, List.map_append, List.sum_append]

theorem tradeKey_reverse (h : Buckets bucket trades) :
    ∀ t ∈ trades.reverse, tradeKey t = some (groupKey bucket t) :=
  fun _ ht => tradeKey_eq h (List.mem_reverse.mp ht)

theorem filter_tradeKey (h : Buckets bucket trades) (k : ℚ × ℤ × OfferType) :
    trades.filter (fun t => tradeKey t = some k) =
      trades.filter fun t => groupKey bucket t = k := by
  refine List.filter_congr ?_
  intro t ht
  rw [tradeKey_eq h ht]
  exact decide_eq_decide.mpr Option.some_inj

/-- The group of a trade with one of the first keys, among some of the trades. -/
theorem total_amount_of_apart (hapart : Apart (floatKey Double) (groupKey bucket) n trades.reverse)
    {ts : List Trade} (hts : ts ⊆ trades) {t : Trade} (ht : t ∈ ts)
    (hmem : groupKey bucket t ∈ firstKeys (groupKey bucket) n trades.reverse) :
    (total (keyOf Double bucket) (openGroup bucket) addTrade ts t).amount =
      ((ts.filter fun t' => groupKey bucket t' = groupKey bucket t).map
        fun t => t.offer.baseAmount).sum := by
  rw [total_amount]
  refine congrArg List.sum (congrArg _ (List.filter_congr fun t' ht' => decide_eq_decide.mpr ?_))
  refine ⟨fun heq => ?_, congrArg (floatKey Double)⟩
  exact hapart t (List.mem_reverse.mpr (hts ht)) t' (List.mem_reverse.mpr (hts ht')) hmem heq

/-- Where the loop leaves out no trade with a key of its groups, they are the first ones and
complete. -/
theorem recentGroups_of_leftOut (h : Buckets bucket trades)
    (hapart : Apart (floatKey Double) (groupKey bucket) n trades.reverse)
    (hout : ∀ t ∈ leftOut (groupKey bucket) n trades.reverse,
      groupKey bucket t ∉ firstKeys (groupKey bucket) n trades.reverse) :
    RecentGroups trades n (groups bucket (taken (keyOf Double bucket) n trades.reverse))
      (groups bucket trades) := by
  have htaken : taken (keyOf Double bucket) n trades.reverse =
      taken (groupKey bucket) n trades.reverse := hapart.taken_eq
  have hfirst := firstKeys_some (n := n) (tradeKey_reverse h)
  have hsub : taken (groupKey bucket) n trades.reverse ⊆ trades := by
    intro t ht
    refine List.mem_reverse.mp ?_
    rw [← taken_append_leftOut (groupKey bucket) n trades.reverse]
    exact List.mem_append_left _ ht
  have hnone {k : ℚ × ℤ × OfferType} (hk : k ∈ firstKeys (groupKey bucket) n trades.reverse) :
      (leftOut (groupKey bucket) n trades.reverse).filter (fun t => groupKey bucket t = k) = [] :=
    List.filter_eq_nil_iff.mpr fun t ht heq => hout t ht (of_decide_eq_true heq ▸ hk)
  -- the amount of a group, over all trades
  have hamount {t : Trade} (ht : t ∈ taken (groupKey bucket) n trades.reverse) :
      (total (keyOf Double bucket) (openGroup bucket) addTrade
        (taken (groupKey bucket) n trades.reverse) t).amount =
      ((trades.filter fun t' => groupKey bucket t' = groupKey bucket t).map
        fun t => t.offer.baseAmount).sum := by
    have hmem := mem_firstKeys_of_taken ht
    rw [total_amount_of_apart hapart hsub ht hmem, sum_filter (groupKey bucket) trades _ n,
      hnone hmem]
    rfl
  rw [htaken]
  constructor
  · rw [groups, List.length_insertionSort, List.length_map, length_group]
    have hlen : (Dedup.firsts (keyOf Double bucket) []
        (taken (keyOf Double bucket) n trades.reverse)).length ≤ n :=
      length_taken_le n trades.reverse
    rwa [htaken] at hlen
  · rw [hfirst, ← Function.comp_def, ← List.map_map]
    refine (map_key_groups.map some).trans (List.Perm.map some ?_)
    have hnodup : ((Dedup.firsts (keyOf Double bucket) []
        (taken (groupKey bucket) n trades.reverse)).map (groupKey bucket)).Nodup := by
      refine List.Nodup.of_map (floatKey Double) ?_
      rw [List.map_map]
      exact (Dedup.firsts_nodup [] _).1
    refine (List.perm_ext_iff_of_nodup hnodup (firstKeys_nodup n _)).mpr
      fun k => ⟨fun hk => ?_, fun hk => ?_⟩
    · obtain ⟨t, ht, rfl⟩ := List.mem_map.mp hk
      exact mem_firstKeys_of_taken (firsts_subset ht)
    · obtain ⟨t, ht, rfl⟩ := List.mem_map.mp hk
      have htrades := firsts_subset (List.mem_of_mem_take ht)
      have hmem := htrades
      rw [← taken_append_leftOut (groupKey bucket) n trades.reverse] at hmem
      rcases List.mem_append.mp hmem with hin | hleft
      · obtain ⟨t', ht', heq⟩ := List.mem_map.mp
          (mem_keys_iff.mpr (List.mem_map_of_mem (f := keyOf Double bucket) hin))
        have hkey := hapart t htrades t' (List.mem_reverse.mpr (hsub (firsts_subset ht'))) hk heq
        exact hkey ▸ List.mem_map_of_mem ht'
      · exact absurd hk (hout t hleft)
  · intro g hg
    obtain ⟨t, ht, rfl⟩ := mem_groups.mp hg
    rw [hamount (firsts_subset ht), total_key, filter_tradeKey h]
  · intro g hg
    obtain ⟨t, ht, rfl⟩ := mem_groups.mp hg
    have hin := firsts_subset ht
    have hmem := mem_firstKeys_of_taken hin
    obtain ⟨t', ht', heq⟩ := List.mem_map.mp
      (mem_keys_iff.mpr (List.mem_map_of_mem (f := keyOf Double bucket) (hsub hin)))
    have hkey : groupKey bucket t' = groupKey bucket t :=
      hapart t (List.mem_reverse.mpr (hsub hin)) t'
        (List.mem_reverse.mpr (firsts_subset ht')) hmem heq
    refine ⟨_, mem_groups.mpr ⟨t', ht', rfl⟩, ?_, ?_⟩
    · rw [total_key, total_key, hkey]
    · rw [hamount hin, total_amount_of_apart hapart (List.Subset.refl _) (firsts_subset ht')
        (hkey ▸ hmem), hkey]

/-- A trade with a positive amount is missing in a sum without it. -/
theorem pos_of_sum_filter (h : Buckets bucket trades) {t : Trade} {ts : List Trade}
    (hts : ts ⊆ trades) (ht : t ∈ ts) {p : Trade → Bool} (hp : p t = true) :
    0 < ((ts.filter p).map fun t => t.offer.baseAmount).sum := by
  have hpos := pos_of_tradeBucket (h t (hts ht))
  exact hpos.trans_le (List.le_sum_of_mem (List.mem_map_of_mem (List.mem_filter.mpr ⟨ht, hp⟩)))

/-- A group of the full grouping that has the amount of its own key has no trade with another. -/
theorem apart_of_recentGroups (h : Buckets bucket trades)
    (hrecent : RecentGroups trades n
      (groups bucket (taken (keyOf Double bucket) n trades.reverse)) (groups bucket trades)) :
    Apart (floatKey Double) (groupKey bucket) n trades.reverse := by
  intro t ht t' ht' hmem hfloat
  have hkey : some (groupKey bucket t) ∈ firstKeys tradeKey n trades.reverse := by
    rw [firstKeys_some (tradeKey_reverse h)]
    exact List.mem_map_of_mem hmem
  obtain ⟨g, hg, hgkey⟩ := List.mem_map.mp (hrecent.keys.mem_iff.mpr hkey)
  have hgkey : g.key = groupKey bucket t := Option.some.inj hgkey
  have hamount := hrecent.amounts g hg
  obtain ⟨g', hg', hkey', hamount'⟩ := hrecent.full g hg
  obtain ⟨t₀, ht₀, rfl⟩ := mem_groups.mp hg'
  rw [total_key, hgkey] at hkey'
  by_contra hne
  -- the trade adds to the group, and not to the sum over its key
  have hsplit : ((trades.filter fun u => keyOf Double bucket u = keyOf Double bucket t₀).map
      fun u => u.offer.baseAmount).sum =
      ((trades.filter fun u => groupKey bucket u = groupKey bucket t).map
        fun u => u.offer.baseAmount).sum := by
    rw [← total_amount, hamount', hamount, hgkey, filter_tradeKey h]
  have hown : (trades.filter fun u => keyOf Double bucket u = keyOf Double bucket t₀).filter
      (fun u => groupKey bucket u = groupKey bucket t) =
      trades.filter fun u => groupKey bucket u = groupKey bucket t := by
    rw [List.filter_filter]
    refine List.filter_congr fun u _ => ?_
    rw [← Bool.decide_and, decide_eq_decide]
    refine and_iff_left_of_imp fun hu => ?_
    exact congrArg (floatKey Double) (hu.trans hkey'.symm)
  have hperm := List.filter_append_perm (fun u => decide (groupKey bucket u = groupKey bucket t))
    (trades.filter fun u => keyOf Double bucket u = keyOf Double bucket t₀)
  rw [← (hperm.map _).sum_eq, List.map_append, List.sum_append, hown] at hsplit
  have hmem' : t' ∈ trades.filter fun u => keyOf Double bucket u = keyOf Double bucket t₀ :=
    List.mem_filter.mpr ⟨List.mem_reverse.mp ht', decide_eq_true
      (hfloat.trans (congrArg (floatKey Double) hkey'.symm) :
        keyOf Double bucket t' = keyOf Double bucket t₀)⟩
  have hpos := pos_of_sum_filter h (List.filter_subset_self _) hmem'
    (p := fun u => !decide (groupKey bucket u = groupKey bucket t)) (by simpa using hne)
  omega

/-- A trade that the loop leaves out is missing in a group with its key. -/
theorem leftOut_of_recentGroups (h : Buckets bucket trades)
    (hapart : Apart (floatKey Double) (groupKey bucket) n trades.reverse)
    (hrecent : RecentGroups trades n
      (groups bucket (taken (keyOf Double bucket) n trades.reverse)) (groups bucket trades)) :
    ∀ t ∈ leftOut (groupKey bucket) n trades.reverse,
      groupKey bucket t ∉ firstKeys (groupKey bucket) n trades.reverse := by
  intro t ht hmem
  have htaken : taken (keyOf Double bucket) n trades.reverse =
      taken (groupKey bucket) n trades.reverse := hapart.taken_eq
  rw [htaken] at hrecent
  have hsub : taken (groupKey bucket) n trades.reverse ++
      leftOut (groupKey bucket) n trades.reverse ⊆ trades := by
    rw [taken_append_leftOut]
    exact trades.reverse_subset.mpr (List.Subset.refl _)
  have hkey : some (groupKey bucket t) ∈ firstKeys tradeKey n trades.reverse := by
    rw [firstKeys_some (tradeKey_reverse h)]
    exact List.mem_map_of_mem hmem
  obtain ⟨g, hg, hgkey⟩ := List.mem_map.mp (hrecent.keys.mem_iff.mpr hkey)
  have hgkey : g.key = groupKey bucket t := Option.some.inj hgkey
  have hamount := hrecent.amounts g hg
  obtain ⟨t₀, ht₀, rfl⟩ := mem_groups.mp hg
  rw [total_key] at hgkey
  rw [total_amount_of_apart hapart (fun u hu => hsub (List.mem_append_left _ hu))
    (firsts_subset ht₀) (hgkey ▸ hmem), total_key, hgkey, filter_tradeKey h,
    sum_filter (groupKey bucket) trades _ n] at hamount
  have hpos := pos_of_sum_filter h (p := fun u => groupKey bucket u = groupKey bucket t)
    (fun u hu => hsub (List.mem_append_right _ hu)) ht (decide_eq_true rfl)
  omega

end

/-- The loop that stops returns the groups of the newest keys with their full amounts exactly when
every trade has a key, no trade that is older than the first one with another key has one of the
newest keys, and no other key has the same `float` as one of these. -/
theorem recent_groups_iff (trades : List Trade) (n : ℕ) :
    (∃ gs all, getNRecentTrades Double getcontext trades n = .ok gs ∧
      groupTrades Double getcontext trades none none none = .ok all ∧
      RecentGroups trades n gs all) ↔
    (∀ t ∈ trades, (tradeKey t).isSome) ∧
      Apart (Option.map (floatKey Double)) tradeKey n trades.reverse ∧
      ∀ t ∈ leftOut tradeKey n trades.reverse,
        tradeKey t ∉ firstKeys tradeKey n trades.reverse := by
  have hcond {bucket : Trade → ℚ × ℤ} (h : Buckets bucket trades) :
      (∀ t ∈ leftOut tradeKey n trades.reverse,
        tradeKey t ∉ firstKeys tradeKey n trades.reverse) ↔
      ∀ t ∈ leftOut (groupKey bucket) n trades.reverse,
        groupKey bucket t ∉ firstKeys (groupKey bucket) n trades.reverse := by
    have hkey := tradeKey_reverse h
    rw [leftOut_some hkey, firstKeys_some hkey]
    refine forall₂_congr fun t ht => not_congr ?_
    have hmem : t ∈ trades.reverse := by
      rw [← taken_append_leftOut (groupKey bucket) n trades.reverse]
      exact List.mem_append_right _ ht
    rw [hkey t hmem]
    exact List.mem_map_of_injective fun _ _ => Option.some.inj
  constructor
  · rintro ⟨gs, all, hgs, hall, hrecent⟩
    obtain ⟨groups, hloop, -⟩ := Except.bind_eq_ok.mp hall
    have hbuckets := buckets_of_groupTradesLoop hloop
    choose! bucket hbucket using hbuckets
    have h : Buckets bucket trades := hbucket
    rw [getNRecentTrades_eq h] at hgs
    rw [groupTrades_eq h] at hall
    cases hgs
    cases hall
    have hapart := apart_of_recentGroups h hrecent
    refine ⟨fun t ht => ?_, (apart_some (tradeKey_reverse h)).mpr hapart,
      (hcond h).mpr (leftOut_of_recentGroups h hapart hrecent)⟩
    rw [tradeKey_eq h ht]
    rfl
  · rintro ⟨hkeys, hapart, hout⟩
    have hbuckets : ∀ t ∈ trades, ∃ b,
        tradeBucket Double getcontext priceGroupPrecision timeGroupIntervalMs t = .ok b := by
      intro t ht
      have hkey := hkeys t ht
      unfold tradeKey at hkey
      cases hb : tradeBucket Double getcontext priceGroupPrecision timeGroupIntervalMs t with
      | ok b => exact ⟨b, rfl⟩
      | error e => rw [hb] at hkey; cases hkey
    choose! bucket hbucket using hbuckets
    have h : Buckets bucket trades := hbucket
    exact ⟨_, _, getNRecentTrades_eq h n, groupTrades_eq h,
      recentGroups_of_leftOut h ((apart_some (tradeKey_reverse h)).mp hapart) ((hcond h).mp hout)⟩

/-- Between two trades at one price there is one at another: a single group has only the newest of
the two. Two trades whose quantized prices have one `float` are in one group. -/
theorem trade_left_out_or_merged :
    (∃ o o' : BasicOffer ℕ,
      (getNRecentTrades Double getcontext [⟨o, 1⟩, ⟨o', 2⟩, ⟨o, 3⟩] 1).toOption.map
        (fun gs => gs.map fun g => (g.price, g.amount)) = some [(1, 10)] ∧
      (groupTrades Double getcontext [⟨o, 1⟩, ⟨o', 2⟩, ⟨o, 3⟩] none none none).toOption.map
        (fun gs => gs.map fun g => (g.price, g.amount)) = some [(1, 20), (2, 10)]) ∧
    ∃ o o' : BasicOffer ℕ, o.baseAmount = 8 ∧ o'.baseAmount = 8 ∧
      tradeKey ⟨o, 1⟩ ≠ tradeKey ⟨o', 2⟩ ∧
      (getNRecentTrades Double getcontext [⟨o, 1⟩, ⟨o', 2⟩] 2).toOption.map
        (List.map GroupedTrade.amount) = some [16] :=
  ⟨⟨{ offerId := 7, type := .buy, baseAmount := 10, quoteAmount := 10, timeoutDate := 100 },
      { offerId := 8, type := .buy, baseAmount := 10, quoteAmount := 20, timeoutDate := 100 },
      by decide +kernel, by decide +kernel⟩,
    { offerId := 7, type := .buy, baseAmount := 8, quoteAmount := 8 * 2 ^ 49 + 2,
      timeoutDate := 100 },
    { offerId := 8, type := .buy, baseAmount := 8, quoteAmount := 8 * 2 ^ 49 + 3,
      timeoutDate := 100 },
    rfl, rfl, by decide +kernel, by decide +kernel⟩

end RaidexNode
end Raidex
