import Mathlib.NumberTheory.Padics.PadicVal.Basic
import Raidex.RaidexNode.OrderAccounts
import Raidex.RaidexNode.RecentTrades
import Raidex.RoundedNumber

/-!
# Raidex.RaidexNode.OrderFunds

The base amounts of the offers that an order has, from when it is processed on.

* `AddUp`: the amounts that can be added up without rounding, as every `int` and every `float` up
  to `2 ^ 53`.
* `Funds`: amounts of which no sum rounds or exceeds that of the order; `funds_taken` and
  `funds_rest` are those of the parts of an order.
* `Carries`: the offers of an order in the node have some of these amounts. Processing an order
  keeps it, also when it raises half way.
-/

namespace Raidex
namespace RaidexNode

open Binary64 (OnGrid largest)

/-! ## Amounts that add up -/

/-- A `float` of at most `2 ^ 53` times the largest power of two in each base amount. -/
def AddUp : Number → List OfferBookEntry → Prop
  | .int _, _ => True
  | .float f, taken => ∀ q ∈ f.exact, ∀ e ∈ taken, q ≤ 2 ^ 53 * 2 ^ padicValNat 2 e.baseAmount

instance : ∀ (amount : Number) (taken : List OfferBookEntry), Decidable (AddUp amount taken)
  | .int _, _ => .isTrue trivial
  | .float _, _ => inferInstanceAs (Decidable (∀ _ ∈ _, ∀ _ ∈ _, _))

/-- The amount of the order and the base amounts that it is matched with. -/
def LimitOrder.AddsUp (order : LimitOrder) (book : OfferBook) : Prop :=
  ∀ x ∈ (matchLimit book order.price order.orderType order.amount).toOption,
    AddUp order.amount x.1

instance (order : LimitOrder) (book : OfferBook) : Decidable (order.AddsUp book) :=
  inferInstanceAs (Decidable (∀ _ ∈ _, _))

/-- Amounts of offers that an order can have. -/
structure Funds (amount : Number) (as : List Number) : Prop where
  addable : Number.Addable as
  bounded : ∀ q, amount.exact = some q → (as.map Number.value).sum ≤ q

theorem Funds.subperm {amount : Number} {as bs : List Number} (h : Funds amount as)
    (hb : bs.Subperm as) : Funds amount bs :=
  ⟨h.addable.subperm hb, fun q hq => (h.addable.sum_le hb).trans (h.bounded q hq)⟩

section

variable {entries taken : List OfferBookEntry} {amount rest : Number} {q : ℚ} {j : ℤ}

/-- The grid of a `float` that adds up with what is taken. -/
theorem AddUp.grid {f : Double} (h : AddUp (.float f) taken) (hq : f.exact = some q)
    (hpos : 0 ≤ q) : ∃ j : ℤ, -1074 ≤ j ∧ OnGrid j q ∧ q ≤ largest ∧
      ∀ e ∈ taken, ∃ (c : ℕ) (i : ℤ), j ≤ i ∧ (e.baseAmount : ℚ) = c * 2 ^ i := by
  obtain ⟨hrepresentable, hle⟩ :=
    Binary64.representable_of_value ((Double.exact_eq_value f).symm.trans hq) hpos
  obtain ⟨j, hj, hgrid, hleast⟩ := Binary64.exists_grid hrepresentable
  refine ⟨j, hj, hgrid, hle, ?_⟩
  intro e he
  obtain ⟨c, hc⟩ : 2 ^ padicValNat 2 e.baseAmount ∣ e.baseAmount := pow_padicValNat_dvd
  refine ⟨c, padicValNat 2 e.baseAmount, hleast _ (by omega) ?_, ?_⟩
  · rw [zpow_natCast]
    exact h q hq e he
  · rw [zpow_natCast]
    conv_lhs => rw [hc]
    push_cast
    ring

/-- On a grid, nothing is rounded when the amounts are subtracted. -/
theorem takeFitting_grid (h : takeFitting entries amount = .ok (taken, rest))
    (hq : amount.exact = some q) (hj : -1074 ≤ j) (hgrid : OnGrid j q) (hle : q ≤ largest)
    (hmultiple : ∀ e ∈ taken, ∃ (c : ℕ) (i : ℤ), j ≤ i ∧ (e.baseAmount : ℚ) = c * 2 ^ i) :
    Unrounded amount taken ∧ (∀ e ∈ taken, OnGrid j e.baseAmount) ∧
      ∃ p, rest.exact = some p ∧ OnGrid j p := by
  induction entries generalizing amount taken q with
  | nil =>
    cases h
    exact ⟨trivial, fun e he => absurd he List.not_mem_nil, q, hq, hgrid⟩
  | cons e entries ih =>
    unfold takeFitting at h
    split at h
    next hfits =>
      obtain ⟨d, hd, h⟩ := Except.bind_eq_ok.mp h
      obtain ⟨⟨taken', rest'⟩, hx, h⟩ := Except.bind_eq_ok.mp h
      cases h
      have hbase : (e.baseAmount : ℚ) ≤ q := (Number.le_exact hq).mp hfits
      have hgride : OnGrid j e.baseAmount := by
        obtain ⟨c, i, hji, heq⟩ := hmultiple e List.mem_cons_self
        rw [heq] at hbase ⊢
        exact .of_coarser hji (hbase.trans hgrid.le)
      obtain ⟨d', hd', hdq⟩ := Number.subInt_exact hq hj hgrid hgride hbase hle
      cases hd.symm.trans hd'
      obtain ⟨hunrounded, hgrids, hrest⟩ := ih hx hdq (hgrid.sub hgride hbase)
        ((sub_le_self q (Nat.cast_nonneg _)).trans hle)
        fun e' he' => hmultiple e' (List.mem_cons_of_mem _ he')
      refine ⟨⟨d, hd, by rw [hdq, hq]; rfl, hunrounded⟩, ?_, hrest⟩
      exact List.forall_mem_cons.mpr ⟨hgride, hgrids⟩
    next => exact ih h hq hgrid hle hmultiple

/-- Nothing finite is left of an amount that is not finite. -/
theorem takeFitting_none (h : takeFitting entries amount = .ok (taken, rest))
    (hnone : amount.exact = none) : rest.exact = none := by
  induction entries generalizing amount taken with
  | nil => cases h; exact hnone
  | cons e entries ih =>
    unfold takeFitting at h
    split at h
    next =>
      obtain ⟨d, hd, h⟩ := Except.bind_eq_ok.mp h
      obtain ⟨⟨taken', rest'⟩, hx, h⟩ := Except.bind_eq_ok.mp h
      cases h
      exact ih hx (Number.subInt_none hnone hd)
    next => exact ih h hnone

end

/-! ## The parts of an order -/

section

variable {order : LimitOrder} {book : OfferBook} {env : Env} {taken : List OfferBookEntry}
  {rest : Number} {o : BasicOffer Number}

/-- The base amounts of the offers that are taken. -/
def takenAmounts (taken : List OfferBookEntry) : List Number :=
  taken.map fun e => .int e.baseAmount

theorem pos_of_matchLimit
    (h : matchLimit book order.price order.orderType order.amount = .ok (taken, rest)) :
    ∀ e ∈ taken, 0 < e.baseAmount := by
  intro e he
  have hmem := (List.perm_insertionSort _ _).mem_iff.mp ((takeFitting_sublist h).subset he)
  obtain ⟨p, hp⟩ := (OfferBook.of_mem_getOffersByPrice hmem).1
  exact pos_of_offerPrice (p := p) hp

theorem sum_takenAmounts (taken : List OfferBookEntry) :
    ((takenAmounts taken).map Number.value).sum = (taken.map fun e => (e.baseAmount : ℚ)).sum := by
  unfold takenAmounts
  rw [List.map_map]
  refine congrArg List.sum (List.map_congr_left fun e _ => ?_)
  show (Int.cast (Nat.cast e.baseAmount) : ℚ) = _
  exact Int.cast_natCast _

theorem takenAmounts_ints (h : ∀ e ∈ taken, 0 < e.baseAmount) :
    ∀ a ∈ takenAmounts taken, ∃ n : ℤ, 0 < n ∧ a = .int n := by
  intro a ha
  obtain ⟨e, he, rfl⟩ := List.mem_map.mp ha
  exact ⟨e.baseAmount, Int.natCast_pos.mpr (h e he), rfl⟩

/-- A limit order that the API lets in has a positive amount, if it has a finite one. -/
theorem pos_of_not_le {amount : Number} {q : ℚ} (hq : amount.exact = some q)
    (h : amount.le (.int 0) = false) : 0 < q := by
  refine not_le.mp ?_
  intro hle
  rw [Number.le, Number.compare_swap, Number.compare_exact hq, Option.map_some, Option.any_some,
    Int.cast_zero] at h
  have hswap : (compare (0 : ℚ) q).swap.isLE = true := by
    rw [Ordering.isLE_swap]
    exact Ordering.isGE_iff_ne_lt.mpr (compare_ge_iff_ge.mpr hle)
  rw [hswap] at h
  cases h

theorem LimitOrder.AddsUp.of_matchLimit (h : order.AddsUp book)
    (hmatch : matchLimit book order.price order.orderType order.amount = .ok (taken, rest)) :
    AddUp order.amount taken :=
  h (taken, rest) (by rw [hmatch]; rfl)

/-- What is taken and what is left add up to an amount that is positive and adds up. -/
theorem exact_of_matchLimit
    (hmatch : matchLimit book order.price order.orderType order.amount = .ok (taken, rest))
    (hpos : order.amount.le (.int 0) = false) (hadds : order.AddsUp book) {q : ℚ}
    (hq : order.amount.exact = some q) : ∃ p, rest.exact = some p ∧ 0 ≤ p ∧
      ((takenAmounts taken).map Number.value).sum + p = q := by
  have hqpos := pos_of_not_le hq hpos
  have hadd := hadds.of_matchLimit hmatch
  have hunrounded : Unrounded order.amount taken := by
    cases ha : order.amount with
    | int a => exact unrounded_int taken a
    | float f =>
      rw [ha] at hadd hq
      obtain ⟨j, hj, hgrid, hle, hmultiple⟩ := hadd.grid hq hqpos.le
      have hfitting : takeFitting _ (.float f) = .ok (taken, rest) := ha ▸ hmatch
      exact (takeFitting_grid hfitting hq hj hgrid hle hmultiple).1
  rw [sum_takenAmounts]
  exact takeFitting_exact hmatch hq hqpos.le hunrounded

/-- The amounts of the entries that an order takes. -/
theorem funds_taken
    (hmatch : matchLimit book order.price order.orderType order.amount = .ok (taken, rest))
    (hpos : order.amount.le (.int 0) = false) (hadds : order.AddsUp book) :
    Funds order.amount (takenAmounts taken) where
  addable := Number.addable_ints (takenAmounts_ints (pos_of_matchLimit hmatch))
  bounded q hq := by
    obtain ⟨p, -, hp, hsum⟩ := exact_of_matchLimit hmatch hpos hadds hq
    exact hsum ▸ le_add_of_nonneg_right hp

/-- An offer for the rest has a finite amount. -/
theorem exact_of_makeOffer (h : order.makeOffer env rest = .ok o) : ∃ p, rest.exact = some p := by
  obtain ⟨f, hf, h⟩ := Except.bind_eq_ok.mp h
  obtain ⟨n, hn, -⟩ := Except.bind_eq_ok.mp h
  exact Number.exact_of_truncate (Except.bind_eq_ok.mpr ⟨f, hf, hn⟩)

/-- The amounts of all parts of an order. -/
theorem funds_rest
    (hmatch : matchLimit book order.price order.orderType order.amount = .ok (taken, rest))
    (hpos : order.amount.le (.int 0) = false) (hadds : order.AddsUp book)
    (hrest : rest.positive = true) (ho : order.makeOffer env rest = .ok o) :
    Funds order.amount (takenAmounts taken ++ [rest]) := by
  obtain ⟨p, hp⟩ := exact_of_makeOffer ho
  have hppos : 0 < p := (Number.positive_exact hp).mp hrest
  have hvalue : rest.value = p := by rw [Number.value, hp]; rfl
  have hsum : ((takenAmounts taken ++ [rest]).map Number.value).sum =
      ((takenAmounts taken).map Number.value).sum + p := by
    rw [List.map_append, List.sum_append, List.map_singleton, List.sum_singleton, hvalue]
  have hints := takenAmounts_ints (pos_of_matchLimit hmatch)
  have hbounded : ∀ q, order.amount.exact = some q →
      ((takenAmounts taken ++ [rest]).map Number.value).sum = q := by
    intro q hq
    obtain ⟨p', hp', -, heq⟩ := exact_of_matchLimit hmatch hpos hadds hq
    cases hp.symm.trans hp'
    exact hsum.trans heq
  refine ⟨?_, fun q hq => (hbounded q hq).le⟩
  cases ha : order.amount with
  | int a =>
    have hint : rest = .int (Pricing.matchLimit book.priced order.price order.orderType a).2 := by
      rw [ha, matchLimit_int] at hmatch
      cases hmatch
      rfl
    refine Number.addable_ints (List.forall_mem_append.mpr ⟨hints, ?_⟩)
    refine List.forall_mem_singleton.mpr ⟨_, ?_, hint⟩
    rw [hint] at hp
    cases hp
    exact Int.cast_pos.mp hppos
  | float f =>
    have hfitting : takeFitting _ (.float f) = .ok (taken, rest) := ha ▸ hmatch
    cases hf : f.exact with
    | none =>
      rw [takeFitting_none hfitting hf] at hp
      cases hp
    | some q =>
      have hq : order.amount.exact = some q := by rw [ha]; exact hf
      have hadd := hadds.of_matchLimit hmatch
      rw [ha] at hadd
      obtain ⟨j, hj, hgrid, hle, hmultiple⟩ := hadd.grid hf (pos_of_not_le hq hpos).le
      obtain ⟨-, hgrids, p', hp', hgridp⟩ := takeFitting_grid hfitting hf hj hgrid hle hmultiple
      cases hp.symm.trans hp'
      refine Number.addable_grid hj ?_ ((hbounded q hq).trans_le hgrid.le)
        ((hbounded q hq).trans_le hle)
      refine List.forall_mem_append.mpr ⟨fun a ha => ?_, List.forall_mem_singleton.mpr ?_⟩
      · obtain ⟨e, he, rfl⟩ := List.mem_map.mp ha
        have hbase : Number.value (.int e.baseAmount) = e.baseAmount := Int.cast_natCast _
        rw [hbase]
        exact ⟨congrArg some (Int.cast_natCast _),
          Nat.cast_pos.mpr (pos_of_matchLimit hmatch e he), hgrids e he⟩
      · rw [hvalue]
        exact ⟨hp, hppos, hgridp⟩

end

/-! ## Filing offers with an order -/

def Node.baseAmount? (s : Node) (r : OfferRef) : Option Number :=
  s.offers[r]?.map fun o => o.baseAmount

/-- The base amounts of the offers of an order. -/
def Node.baseAmounts (s : Node) (placed : List (Nat × OfferRef)) : List Number :=
  placed.filterMap fun x => s.baseAmount? x.2

/-- A new offer object may have been put into the order, with this amount. -/
structure Places (orderId : Nat) (b : Number) (s s' : Node) : Prop where
  old : ∀ (r : OfferRef) (o : Offer), s.offers[r]? = some o → s'.offers[r]? = some o
  orders : s'.orders = s.orders ∨ ∃ id o, s'.offers[s.nextOffer]? = some o ∧ o.baseAmount = b ∧
    s'.orders = (s.updateOrder orderId fun order =>
      { order with correspondingOffers := setItem id s.nextOffer order.correspondingOffers }).orders

/-- The order in the node has offers with some of these amounts. -/
def Carries (s : Node) (order : LimitOrder) (as : List Number) : Prop :=
  ∃ placed, s.orders.lookup order.orderId = some { order with correspondingOffers := placed } ∧
    (∀ x ∈ placed, ∃ o, s.offers[x.2]? = some o) ∧ (s.baseAmounts placed).Subperm as

section

variable {s s' : Node} {env : Env} {order : LimitOrder} {orderId : Nat} {b : Number}
  {as bs : List Number}

theorem updateOrder_orders (s : Node) (orderId : Nat) (f : LimitOrder → LimitOrder) :
    (s.updateOrder orderId f).orders = match s.orders.lookup orderId with
      | none => s.orders
      | some order => s.orders.insert orderId (f order) := by
  unfold Node.updateOrder
  cases s.orders.lookup orderId <;> rfl

theorem updateOrder_congr {f : LimitOrder → LimitOrder} (h : s'.orders = s.orders) :
    (s'.updateOrder orderId f).orders = (s.updateOrder orderId f).orders := by
  rw [updateOrder_orders, updateOrder_orders, h]

theorem lookup_updateOrder_ne {f : LimitOrder → LimitOrder} {k : Nat} (hk : k ≠ orderId) :
    (s.updateOrder orderId f).orders.lookup k = s.orders.lookup k := by
  rw [updateOrder_orders]
  cases s.orders.lookup orderId with
  | none => rfl
  | some order => exact AList.lookup_insert_ne hk

theorem subperm_setItem {α : Type} {g : Nat × OfferRef → Option α} {a : α} (key : Nat)
    {value : OfferRef} (h : ∀ k, g (k, value) = some a) (l : List (Nat × OfferRef)) :
    ((setItem key value l).filterMap g).Subperm (l.filterMap g ++ [a]) := by
  induction l with
  | nil =>
    rw [setItem, List.filterMap_cons_some (h key)]
    exact List.Subperm.refl _
  | cons x l ih =>
    unfold setItem
    split
    · rw [List.filterMap_cons_some (h _)]
      refine List.Subperm.trans ?_ List.perm_append_comm.subperm
      rw [List.singleton_append, List.subperm_cons]
      cases hx : g x with
      | none => rw [List.filterMap_cons_none hx]
      | some a' =>
        rw [List.filterMap_cons_some hx]
        exact (List.sublist_cons_self ..).subperm
    · cases hx : g x with
      | none =>
        rw [List.filterMap_cons_none hx, List.filterMap_cons_none hx]
        exact ih
      | some a' =>
        rw [List.filterMap_cons_some hx, List.filterMap_cons_some hx, List.cons_append,
          List.subperm_cons]
        exact ih

theorem baseAmounts_old
    (hold : ∀ (r : OfferRef) (o : Offer), s.offers[r]? = some o → s'.offers[r]? = some o)
    {placed : List (Nat × OfferRef)} (h : ∀ x ∈ placed, ∃ o, s.offers[x.2]? = some o) :
    s'.baseAmounts placed = s.baseAmounts placed := by
  refine List.filterMap_congr ?_
  intro x hx
  obtain ⟨o, ho⟩ := h x hx
  unfold Node.baseAmount?
  rw [ho, hold x.2 o ho]

theorem Places.of_eq {t : Node} (h : Places orderId b s s') (hoffers : t.offers = s'.offers)
    (horders : t.orders = s'.orders) : Places orderId b s t := by
  obtain ⟨hold, hput⟩ := h
  rw [← hoffers, ← horders] at *
  exact ⟨hold, hput⟩

/-- The new offer has entered a state. -/
theorem Places.entered {o : Offer} (h : Places orderId o.baseAmount s s')
    (ho : s'.offers[s.nextOffer]? = some o) (d : OfferState) (k : OfferKwargs) :
    Places orderId o.baseAmount s (s'.entered s.nextOffer o d k) where
  old r o' ho' := by
    have hlt : r < s.offers.length := (List.getElem?_eq_some_iff.mp ho').1
    exact (entered_other (Nat.ne_of_lt hlt)).trans (h.old r o' ho')
  orders := by
    rcases h.orders with heq | ⟨id, o', -, -, heq⟩
    · exact .inl heq
    · exact .inr ⟨id, _, entered_self ho, rfl, heq⟩

theorem Places.others (h : Places orderId b s s') {k : Nat} (hk : k ≠ orderId) :
    s'.orders.lookup k = s.orders.lookup k := by
  rcases h.orders with heq | ⟨id, o, -, -, heq⟩
  · rw [heq]
  · rw [heq]
    exact lookup_updateOrder_ne hk

theorem Carries.mono (h : Carries s order as) (hsub : as.Subperm bs) : Carries s order bs := by
  obtain ⟨placed, horder, hknown, hamounts⟩ := h
  exact ⟨placed, horder, hknown, hamounts.trans hsub⟩

theorem Carries.places (h : Carries s order as) (hp : Places order.orderId b s s') :
    Carries s' order (as ++ [b]) := by
  obtain ⟨placed, horder, hknown, hamounts⟩ := h
  have hknown' : ∀ x ∈ placed, ∃ o, s'.offers[x.2]? = some o := by
    intro x hx
    obtain ⟨o, ho⟩ := hknown x hx
    exact ⟨o, hp.old x.2 o ho⟩
  have hamounts' : (s'.baseAmounts placed).Subperm as := by rwa [baseAmounts_old hp.old hknown]
  rcases hp.orders with heq | ⟨id, o, ho, rfl, heq⟩
  · exact ⟨placed, heq ▸ horder, hknown', hamounts'.trans (List.sublist_append_left ..).subperm⟩
  · refine ⟨setItem id s.nextOffer placed, ?_, ?_, ?_⟩
    · rw [heq]
      exact lookup_updateOrder horder
    · intro x hx
      rcases mem_setItem (List.mem_map_of_mem hx) with hmem | hnew
      · obtain ⟨y, hy, hyx⟩ := List.mem_map.mp hmem
        exact hyx ▸ hknown' y hy
      · exact ⟨o, hnew ▸ ho⟩
    · have hamount : s'.baseAmount? s.nextOffer = some o.baseAmount := by
        rw [Node.baseAmount?, ho]
        rfl
      have hset := subperm_setItem (g := fun x => s'.baseAmount? x.2) id (fun _ => hamount) placed
      exact hset.trans ((List.subperm_append_right _).mpr hamounts')

end

/-! ## Processing an order -/

section

variable {s : Node} {env : Env} {order : LimitOrder} {orderId : Nat} {as : List Number}

theorem places_created {o : BasicOffer Number} {role : TraderRole} {s' : Node}
    (hoffers : s'.offers = (s.created o role).offers) (horders : s'.orders = s.orders) :
    Places orderId o.baseAmount s s' :=
  ⟨fun _ _ ho => hoffers ▸ created_old ho, .inl horders⟩

variable (env orderId s) in
theorem takeOffer_places (e : OfferBookEntry) :
    Places orderId (.int e.baseAmount) s ((takeOffer env orderId e).run s).state := by
  have hregistered : Places orderId (.int e.baseAmount) s (s.registered env orderId e) :=
    ⟨fun _ _ ho => registered_quiet.offers ▸ created_old ho,
      .inr ⟨e.offerId, _, registered_getElem?, rfl, updateOrder_congr rfl⟩⟩
  by_cases htime : s.Startable e.offerId ∧ e.offer.timeoutDate ≤ maxTimestamp
  swap
  · obtain ⟨err, s', hrun, hs'⟩ := createNewTimeout_error (s := s.created e.takeOffer .taker)
      env 0 htime
    unfold takeOffer
    rw [EStateM.run_seq_ok (createTakeOffer_run s e), EStateM.run_seq_error hrun]
    rcases hs' with rfl | rfl
    · exact places_created (o := e.takeOffer) rfl rfl
    · exact places_created (o := e.takeOffer) rfl rfl
  obtain ⟨hs, hdate⟩ := htime
  cases hdistinct : s.hasEqualModel e.takeOffer with
  | true =>
    obtain ⟨err, hrun⟩ := takeOffer_unmodelled env orderId hs hdate hdistinct
    rw [hrun]
    exact hregistered
  | false =>
    have hnew : (s.registered env orderId e).offers[s.nextOffer]? =
        some (.new e.takeOffer .taker (!s.hasEqualModel e.takeOffer)) := registered_getElem?
    rw [hdistinct] at hnew
    have hinitiated : Places orderId (.int e.baseAmount) s (s.initiated env orderId e) :=
      hregistered.entered hnew .openUnproved {}
    rw [takeOffer_initiated hs hdate hdistinct]
    cases hlisted : (s.initiated env orderId e).offerBook.contains e.offerId with
    | true =>
      obtain ⟨book, hrun, -⟩ := removeFromBook_ok hlisted
      rw [hrun]
      exact hinitiated.of_eq rfl rfl
    | false =>
      rw [removeFromBook_error hlisted]
      exact hinitiated

variable (env) in
theorem offerRest_places {amountLeft : Number} {o : BasicOffer Number}
    (h : order.makeOffer env amountLeft = .ok o) : Places order.orderId amountLeft s
      ((offerRest env order amountLeft).run s).state := by
  obtain rfl := LimitOrder.makeOffer_baseAmount h
  have hoffered : Places order.orderId o.baseAmount s (s.offered env order.orderId o) :=
    ⟨fun _ _ ho => (offered_quiet env order.orderId).offers ▸ created_old ho,
      .inr ⟨o.offerId, _, offered_getElem?, rfl, updateOrder_congr rfl⟩⟩
  by_cases hs : s.Startable o.offerId
  swap
  · obtain ⟨err, s', hrun, hs'⟩ := createNewTimeout_error (s := s.created o .maker)
      env 0 fun hboth : _ ∧ o.timeoutDate ≤ maxTimestamp => hs hboth.1
    unfold offerRest
    rw [h, EStateM.run_seq_ok (EStateM.run_ofExcept_ok o s),
      EStateM.run_seq_ok (createMakeOffer_run s o), EStateM.run_seq_error hrun]
    rcases hs' with rfl | rfl
    · exact places_created rfl rfl
    · exact places_created rfl rfl
  cases hdistinct : s.hasEqualModel o with
  | true =>
    obtain ⟨err, hrun⟩ := offerRest_unmodelled h hs hdistinct
    rw [hrun]
    exact hoffered
  | false =>
    have hnew : (s.offered env order.orderId o).offers[s.nextOffer]? =
        some (.new o .maker (!s.hasEqualModel o)) := offered_getElem?
    rw [hdistinct] at hnew
    rw [offerRest_ok h ⟨hs, hdistinct⟩]
    exact hoffered.entered hnew .openUnproved {}

variable (env) in
/-- Taking the entries one after the other, as far as it goes. -/
theorem takeOffers_carries (es : List OfferBookEntry) (h : Carries s order as) :
    Carries ((takeOffers env order.orderId es).run s).state order (as ++ takenAmounts es) := by
  induction es generalizing s as with
  | nil => exact h.mono (List.sublist_append_left ..).subperm
  | cons e es ih =>
    have hone := h.places (takeOffer_places s env order.orderId e)
    have hsplit : as ++ takenAmounts (e :: es) = as ++ [.int e.baseAmount] ++ takenAmounts es := by
      rw [List.append_assoc]
      rfl
    unfold takeOffers
    rw [hsplit]
    cases hrun : (takeOffer env order.orderId e).run s with
    | ok _ t =>
      rw [hrun] at hone
      rw [EStateM.run_seq_ok hrun]
      exact ih hone
    | error err t =>
      rw [hrun] at hone
      rw [EStateM.run_seq_error hrun]
      exact hone.mono (List.sublist_append_left ..).subperm

variable (env) in
/-- Whether it returns or raises, processing an order gives it offers with amounts that it can
have. -/
theorem processOrder_carries (hempty : order.correspondingOffers = [])
    (hpos : order.amount.le (.int 0) = false) (hadds : order.AddsUp s.offerBook) :
    ∃ as, Funds order.amount as ∧ Carries ((processOrder env order).run s).state order as := by
  obtain ⟨taken, rest, hmatch⟩ := matchLimit_ok s.offerBook order.price order.orderType order.amount
  have hfunds := funds_taken hmatch hpos hadds
  have hnone : Carries { s with orders := s.orders.insert order.orderId order } order [] := by
    refine ⟨[], ?_, fun x hx => absurd hx List.not_mem_nil, List.Subperm.refl _⟩
    rw [← hempty]
    exact AList.lookup_insert _
  have htaken := takeOffers_carries env taken hnone
  rw [List.nil_append] at htaken
  rw [processOrder_run hmatch]
  cases hrun : (takeOffers env order.orderId taken).run
    { s with orders := s.orders.insert order.orderId order } with
  | error err t =>
    rw [hrun] at htaken
    rw [EStateM.run_seq_error hrun]
    exact ⟨_, hfunds, htaken⟩
  | ok _ t =>
    rw [hrun] at htaken
    rw [EStateM.run_seq_ok hrun]
    split
    next hrest =>
      cases ho : order.makeOffer env rest with
      | error err =>
        rw [offerRest_unpriced ho]
        exact ⟨_, hfunds, htaken⟩
      | ok o =>
        exact ⟨_, funds_rest hmatch hpos hadds hrest ho, htaken.places (offerRest_places env ho)⟩
    next => exact ⟨_, hfunds, htaken⟩

/-- The other orders of the node stay as they are. -/
theorem processOrder_others {k : Nat} (hk : k ≠ order.orderId) :
    ((processOrder env order).run s).state.orders.lookup k = s.orders.lookup k := by
  have htake (es : List OfferBookEntry) : EStateM.Moves
      (fun s s' : Node => s'.orders.lookup k = s.orders.lookup k)
      (takeOffers env order.orderId es) := by
    induction es with
    | nil => exact fun _ => rfl
    | cons e es ih =>
      exact EStateM.moves_bind (fun _ _ _ h h' => h'.trans h)
        (fun t => (takeOffer_places t env order.orderId e).others hk) fun _ => ih
  obtain ⟨taken, rest, hmatch⟩ := matchLimit_ok s.offerBook order.price order.orderType order.amount
  rw [processOrder_run hmatch]
  refine (EStateM.moves_bind (fun _ _ _ h h' => h'.trans h) (htake taken) (fun _ t => ?_) _).trans
    (AList.lookup_insert_ne hk)
  split
  next =>
    cases ho : order.makeOffer env rest with
    | error err =>
      rw [offerRest_unpriced ho]
      rfl
    | ok o => exact (offerRest_places env ho).others hk
  next => rfl

end

/-! ## Orders that are processed to the end -/

/-- Every offer of the order has a state. -/
def Modelled (s : Node) (order : LimitOrder) : Prop :=
  ∀ x ∈ order.correspondingOffers, ∃ o, s.offers[x.2]? = some o ∧ o.isModel = true

section

variable {s s' : Node} {env : Env} {order : LimitOrder} {orderId : Nat} {p : Part}

theorem Launches.modelled (hl : Launches orderId p s s')
    (horder : s.orders.lookup orderId = some order) (h : Modelled s order) :
    ∃ placed, s'.orders.lookup orderId = some { order with correspondingOffers := placed } ∧
      Modelled s' { order with correspondingOffers := placed } := by
  refine ⟨_, hl.placed _ horder, ?_⟩
  intro x hx
  rcases mem_setItem (List.mem_map_of_mem hx) with hmem | hnew
  · obtain ⟨y, hy, hyx⟩ := List.mem_map.mp hmem
    obtain ⟨o, ho, hmodel⟩ := h y hy
    have hlt : y.2 < s.offers.length := (List.getElem?_eq_some_iff.mp ho).1
    refine ⟨o, ?_, hmodel⟩
    rw [← hyx, hl.offers, List.getElem?_append_left hlt, ho]
  · refine ⟨p.initiated, ?_, rfl⟩
    rw [hnew, hl.offers]
    exact List.getElem?_concat_length

theorem takeOffers_modelled {es : List OfferBookEntry}
    (horder : s.orders.lookup orderId = some order) (h : Modelled s order)
    (hrun : (takeOffers env orderId es).run s = .ok () s') :
    ∃ placed, s'.orders.lookup orderId = some { order with correspondingOffers := placed } ∧
      Modelled s' { order with correspondingOffers := placed } := by
  induction es generalizing s order with
  | nil =>
    cases hrun
    exact ⟨_, horder, h⟩
  | cons e es ih =>
    obtain ⟨_, t, hone, hrun⟩ := EStateM.run_bind_eq_ok.mp hrun
    obtain ⟨placed, horder', h'⟩ := (takeOffer_launches hone).modelled horder h
    have hrest := ih horder' h' hrun
    exact hrest

/-- When the processing of an order returns, all its offers have a state. -/
theorem processOrder_modelled (hempty : order.correspondingOffers = [])
    (h : (processOrder env order).run s = .ok () s') :
    ∃ placed, s'.orders.lookup order.orderId = some { order with correspondingOffers := placed } ∧
      Modelled s' { order with correspondingOffers := placed } := by
  obtain ⟨taken, rest, hmatch⟩ := matchLimit_ok s.offerBook order.price order.orderType order.amount
  rw [processOrder_run hmatch] at h
  obtain ⟨_, t, hrun, h⟩ := EStateM.run_bind_eq_ok.mp h
  have hnone (t : Node) : Modelled t order := by
    intro x hx
    rw [hempty] at hx
    cases hx
  obtain ⟨placed, horder, hmodels⟩ := takeOffers_modelled (AList.lookup_insert _) (hnone _) hrun
  split at h
  next hrest =>
    obtain ⟨o, ho, -⟩ := offerRest_returns_iff.mp (EStateM.returns_of_ok h)
    have hlaunched := (offerRest_launches ho h).modelled horder hmodels
    exact hlaunched
  next =>
    cases h
    exact ⟨placed, horder, hmodels⟩

end

end RaidexNode
end Raidex
