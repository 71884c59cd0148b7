import Raidex.RaidexNode.OrderAccounts

/-!
# Raidex.RaidexNode.AllOrNothing

Whether `process_order` processes an order as a whole or leaves the node as it is.

* `AllOrNothing`: what is asked of `process_order`, for a node and an order.
* `Grown`: the offer manager keeps an offer that is new. `processOrder_grown`: so it is after any
  attempt to take an entry, or to offer a rest that has a price.
* `all_or_nothing_iff`: an order is processed all or nothing when nothing in it fails, or when it
  fails before its first offer.
-/

namespace Raidex
namespace RaidexNode

/-- Orders, offers, matches, timers and the book are as before. -/
structure Unchanged (s s' : Node) : Prop where
  orders : ∀ id, s'.orders.lookup id = s.orders.lookup id
  offerManager : ∀ id, s'.getOffer id = s.getOffer id
  matchesById : ∀ id, s'.matchesById.lookup id = s.matchesById.lookup id
  timeoutGreenlets : ∀ id, s'.timeoutGreenlets.lookup id = s.timeoutGreenlets.lookup id
  offerBook : s'.offerBook = s.offerBook

/-- The order is processed with all its parts, or the exception leaves the node as it was. -/
def AllOrNothing (env : Env) (order : LimitOrder) (s : Node) : Prop :=
  match (processOrder env order).run s with
  | .ok _ s' => ∃ parts, order.parts env s.offerBook = .ok parts ∧ Filed s' order parts
  | .error _ s' => Unchanged s s'

theorem AllOrNothing.unchanged {env : Env} {order : LimitOrder} {s : Node}
    (h : AllOrNothing env order s) (hraises : ((processOrder env order).run s).returned = false) :
    Unchanged s ((processOrder env order).run s).state := by
  unfold AllOrNothing at h
  cases hrun : (processOrder env order).run s with
  | ok _ s' => rw [hrun] at hraises; cases hraises
  | error err s' => rw [hrun] at h; exact h

/-- Every entry can be taken, and the rest can be offered under an id of its own. -/
def Processable (env : Env) (order : LimitOrder) (s : Node) : Prop :=
  ∀ taken rest, matchLimit s.offerBook order.price order.orderType order.amount =
      .ok (taken, rest) →
    (∀ e ∈ taken, CanTake s e) ∧
    (rest.positive = true → (∃ o, order.makeOffer env rest = .ok o ∧ CanOffer s o) ∧
      createRandom32BytesId env.offerUuid ∉ taken.map OfferBookEntry.offerId)

/-- There is nothing to take, the rest cannot be priced or dated, and the node has this very order
already. -/
def Refused (env : Env) (order : LimitOrder) (s : Node) : Prop :=
  ∃ rest err, matchLimit s.offerBook order.price order.orderType order.amount = .ok ([], rest) ∧
    rest.positive = true ∧ order.makeOffer env rest = .error err ∧
    s.orders.lookup order.orderId = some order

/-! ## New offers -/

/-- There are at least `n` offer objects, and the offer manager keeps one of those after them. -/
structure Grown (n : Nat) (s : Node) : Prop where
  length : n ≤ s.offers.length
  managed : ∃ id r, s.getOffer id = some r ∧ n ≤ r

section

variable {n : Nat} {s s' : Node} {env : Env} {orderId : Nat} {order : LimitOrder}
  {taken : List OfferBookEntry} {rest : Number}

theorem Files.grown {b : BasicOffer Number} {role : TraderRole} (hn : n ≤ s.offers.length)
    (h : Files orderId s.nextOffer (s.created b role) s') : Grown n s' := by
  have hlength : s'.offers.length = s.offers.length + 1 := by
    rw [h.length]; exact List.length_append
  refine ⟨hlength ▸ Nat.le_succ_of_le hn, b.offerId, s.nextOffer, ?_, hn⟩
  unfold Node.getOffer
  rw [h.offerManager]
  exact AList.lookup_insert _

theorem takeOffers_grown {es : List OfferBookEntry} (hn : n ≤ s.offers.length) (hes : es ≠ []) :
    Grown n ((takeOffers env orderId es).run s).state := by
  induction es generalizing s with
  | nil => exact absurd rfl hes
  | cons e es ih =>
    refine EStateM.state_bind ((takeOffer_files env orderId s e).grown hn) ?_
    intro _ s₁ _ hgrown
    by_cases hmore : es = []
    · subst hmore
      exact hgrown
    · exact ih hgrown.length hmore

theorem offerRest_grown {amountLeft : Number} (hs : Grown n s) :
    Grown n ((offerRest env order amountLeft).run s).state := by
  cases ho : order.makeOffer env amountLeft with
  | error err =>
    rw [offerRest_unpriced ho]
    exact hs
  | ok o => exact (offerRest_files env (s := s) ho).grown hs.length

/-- What comes after the order is registered, for an order with something to take or to offer. -/
theorem parts_grown (hn : n ≤ s.offers.length)
    (h : taken ≠ [] ∨ rest.positive = true ∧ ∃ o, order.makeOffer env rest = .ok o) :
    Grown n (EStateM.run (do
      takeOffers env order.orderId taken
      if rest.positive then offerRest env order rest : NodeM Unit) s).state := by
  by_cases htaken : taken = []
  · obtain ⟨hpos, o, ho⟩ := h.resolve_left fun hne => hne htaken
    subst htaken
    rw [takeOffers, EStateM.run_seq_ok (EStateM.run_pure ..), if_pos hpos]
    exact (offerRest_files env ho).grown hn
  · refine EStateM.state_bind (takeOffers_grown hn htaken) ?_
    intro _ s₁ _ hgrown
    split
    · exact offerRest_grown hgrown
    · exact hgrown

theorem processOrder_grown
    (hmatch : matchLimit s.offerBook order.price order.orderType order.amount = .ok (taken, rest))
    (h : taken ≠ [] ∨ rest.positive = true ∧ ∃ o, order.makeOffer env rest = .ok o) :
    Grown s.offers.length ((processOrder env order).run s).state := by
  rw [processOrder_run hmatch]
  exact parts_grown (s := { s with orders := s.orders.insert order.orderId order }) le_rfl h

/-- A new offer in the offer manager is a change. -/
theorem Grown.changed (hs : Managed s) (h : Grown s.offers.length s') : ¬ Unchanged s s' := by
  intro hsame
  obtain ⟨id, r, hr, hlt⟩ := h.managed
  obtain ⟨o, ho, -⟩ := hs id r ((hsame.offerManager id).symm.trans hr)
  exact absurd (List.getElem?_eq_some_iff.mp ho).1 (Nat.not_lt.mpr hlt)

/-! ## All or nothing -/

/-- An order that fails before its first offer is registered, and that is all. -/
theorem processOrder_unpriced {err : PyError}
    (hmatch : matchLimit s.offerBook order.price order.orderType order.amount = .ok ([], rest))
    (hpos : rest.positive = true) (h : order.makeOffer env rest = .error err) :
    (processOrder env order).run s =
      .error err { s with orders := s.orders.insert order.orderId order } := by
  rw [processOrder_run hmatch, takeOffers, EStateM.run_seq_ok (EStateM.run_pure ..), if_pos hpos]
  exact offerRest_unpriced h

theorem unchanged_orders (h : s.orders.lookup order.orderId = some order) :
    Unchanged s { s with orders := s.orders.insert order.orderId order } := by
  refine ⟨fun id => ?_, fun _ => rfl, fun _ => rfl, fun _ => rfl, rfl⟩
  by_cases hid : id = order.orderId
  · subst hid
    exact (AList.lookup_insert _).trans h.symm
  · exact AList.lookup_insert_ne hid

/-- The offer of an entry and the offer for the rest are different objects. -/
theorem Filed.separate {o : BasicOffer Number}
    (h : Filed s' order (taken.map .taken ++ [.rest o])) :
    o.offerId ∉ taken.map OfferBookEntry.offerId := by
  intro hmem
  obtain ⟨e, he, heq⟩ := List.mem_map.mp hmem
  obtain ⟨placed, -, hplaced⟩ := h
  obtain ⟨⟨id, r⟩, -, htaken⟩ := exists_placed hplaced
    (List.mem_append_left _ (List.mem_map_of_mem (f := Part.taken) he))
  obtain ⟨⟨id', r'⟩, -, hrest⟩ := exists_placed hplaced
    (List.mem_append_right _ (List.mem_singleton.mpr rfl))
  obtain rfl : e.offerId = id := htaken.named
  obtain rfl : o.offerId = id' := hrest.named
  have hmanaged := htaken.managed
  rw [heq, hrest.managed] at hmanaged
  cases hmanaged
  have hoffer := htaken.offer
  rw [hrest.offer] at hoffer
  cases hoffer

theorem all_or_nothing_of (hs : Sound s) (hmanaged : Managed s) (hunspent : Unspent s)
    (hempty : order.correspondingOffers = []) :
    AllOrNothing env order s ↔ Processable env order s ∨ Refused env order s := by
  obtain ⟨taken, rest, hmatch⟩ := matchLimit_ok s.offerBook order.price order.orderType order.amount
  have hreturns : EStateM.Returns (processOrder env order) s ↔ _ :=
    processOrder_returns_iff hs hmatch
  unfold AllOrNothing
  constructor
  · intro h
    cases hrun : (processOrder env order).run s with
    | ok _ s' =>
      rw [hrun] at h
      obtain ⟨parts, hparts, hfiled⟩ := h
      obtain ⟨hcan, hoffer⟩ := hreturns.mp (EStateM.returns_of_ok hrun)
      refine .inl ?_
      intro taken' rest' hmatch'
      cases hmatch.symm.trans hmatch'
      refine ⟨hcan, fun hpos => ⟨hoffer hpos, ?_⟩⟩
      rw [LimitOrder.parts_eq_ok hmatch, if_pos hpos] at hparts
      obtain ⟨o, ho, rfl⟩ := hparts
      exact (LimitOrder.makeOffer_ok ho).1 ▸ hfiled.separate
    | error err s' =>
      rw [hrun] at h
      by_cases hgrow : taken ≠ [] ∨ rest.positive = true ∧ ∃ o, order.makeOffer env rest = .ok o
      · have hgrown := processOrder_grown hmatch hgrow
        rw [hrun] at hgrown
        exact absurd h (hgrown.changed hmanaged)
      rw [not_or, not_not] at hgrow
      obtain ⟨rfl, hnone⟩ := hgrow
      have hpos : rest.positive = true := by
        by_contra hneg
        have hret := hreturns.mpr ⟨by simp, fun hpos => absurd hpos hneg⟩
        exact EStateM.not_returns_of_error hrun hret
      cases hprice : order.makeOffer env rest with
      | ok o => exact absurd ⟨hpos, o, hprice⟩ hnone
      | error err' =>
        rw [processOrder_unpriced hmatch hpos hprice] at hrun
        cases hrun
        exact .inr ⟨rest, err, hmatch, hpos, hprice,
          (h.orders order.orderId).symm.trans (AList.lookup_insert _)⟩
  · rintro (h | ⟨rest', err, hmatch', hpos, hprice, horder⟩)
    · obtain ⟨hcan, hoffer⟩ := h taken rest hmatch
      obtain ⟨_, s', hrun⟩ :=
        EStateM.returns_iff.mp (hreturns.mpr ⟨hcan, fun hpos => (hoffer hpos).1⟩)
      rw [hrun]
      exact processOrder_filed hempty hunspent hmatch (fun hpos => (hoffer hpos).2) hrun
    · rw [processOrder_unpriced hmatch' hpos hprice]
      exact unchanged_orders horder

end

/-! ## Reachable nodes -/

theorem managed_run (C : Crypto) (market : TokenPair) (commitmentServiceAddress : Address)
    (is : List App.Input) : Managed (App.run C market commitmentServiceAddress is).node :=
  LTS.run_invariant (App.step C) (fun _ a => Managed a.node) (Managed.init market)
    (fun _ _ _ hs => hs.step) is

/-- In every reachable node, `process_order` is all or nothing exactly for an order that can be
processed whole, and for one that fails before its first offer and is registered already. -/
theorem all_or_nothing_iff (C : Crypto) (market : TokenPair) (commitmentServiceAddress : Address)
    (is : List App.Input) (env : Env) (order : LimitOrder)
    (hempty : order.correspondingOffers = []) :
    AllOrNothing env order (App.run C market commitmentServiceAddress is).node ↔
      Processable env order (App.run C market commitmentServiceAddress is).node ∨
      Refused env order (App.run C market commitmentServiceAddress is).node :=
  all_or_nothing_of (sound_run ..) (managed_run C market commitmentServiceAddress is)
    (unspent_run C market commitmentServiceAddress is) hempty

/-- The offer of `5` is taken, and `3` are offered. -/
theorem eight_all_or_nothing : AllOrNothing { now := 0, orderUuid := 1, offerUuid := 2 }
    (sellOrder (.int 8)) offered.node := by
  refine (all_or_nothing_iff .plain { baseToken := 1, quoteToken := 2 } 9 _ _ _ rfl).mpr
    (.inl fun taken rest hmatch => ?_)
  have hret : EStateM.Returns (processOrder { now := 0, orderUuid := 1, offerUuid := 2 }
    (sellOrder (.int 8))) offered.node := by decide +kernel
  obtain ⟨hcan, hoffer⟩ := (processOrder_returns_iff (sound_run ..) hmatch).mp hret
  exact ⟨hcan, fun hpos => ⟨hoffer hpos, CanTake.not_mem hcan (by decide +kernel)⟩⟩

/-- The timer of the offer has fired, and the timeout waits behind an order that takes it. -/
def overtaken : App := App.run .plain { baseToken := 1, quoteToken := 2 } 9
  [publication 1 2, .handle { now := 0, orderUuid := 1, offerUuid := 2 },
    .postLimitOrder 3 "SELL" (.int 5) (Float.Model.ofInt 1), .timer 7]

/-- The order takes the offer, and then there is no timer for it. -/
theorem overtaken_half_taken : ∃ data,
    overtaken.stateChanges = [.newLimitOrder data, .offerTimeout 7 100] ∧
    ¬ AllOrNothing { now := 0, orderUuid := 1, offerUuid := 2 }
      (.fromDict { now := 0, orderUuid := 1, offerUuid := 2 } data) overtaken.node := by
  refine ⟨_, rfl, ?_⟩
  intro h
  have hsame := (h.unchanged (by decide +kernel)).offerManager 7
  revert hsame
  decide +kernel

end RaidexNode
end Raidex
