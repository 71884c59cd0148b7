import Raidex.RaidexNode.Survival
import Raidex.RaidexNode.Takes

/-!
# Raidex.RaidexNode.OrderCancelling

What `cancel_order` does to an order.

* `Cancels`: the cancelling of an order, as it is meant.
* `cancelOrder_open`: what the code does to an order with open offers. The first of them is timed
  out, its timer runs on, and the lookup of the timer by the offer raises.
* `cancel_order_iff`: so an order is canceled when it has no open offers.
-/

namespace Raidex
namespace RaidexNode

/-- Every open offer of the order asks for its cancellation and has no timer, and nothing else has
changed. -/
structure Cancels (order : LimitOrder) (s s' : Node) : Prop where
  requested : ∀ x ∈ order.correspondingOffers, ∀ o, s.offers[x.2]? = some o →
    o.state.status = .open_ →
      s'.offers[x.2]? = some { o with state := .openCancellationRequested } ∧
      s'.timeoutGreenlets.lookup x.1 = none
  offers : ∀ r, (∀ o, s.offers[r]? = some o → r ∈ order.correspondingOffers.map Prod.snd →
    o.state.status ≠ .open_) → s'.offers[r]? = s.offers[r]?
  timeoutGreenlets : ∀ id, (∀ x ∈ order.correspondingOffers, x.1 = id → ∀ o,
    s.offers[x.2]? = some o → o.state.status ≠ .open_) →
      s'.timeoutGreenlets.lookup id = s.timeoutGreenlets.lookup id
  offerManager : s'.offerManager = s.offerManager
  orders : s'.orders = s.orders
  matchesById : s'.matchesById = s.matchesById
  offerBook : s'.offerBook = s.offerBook

section

variable {s : Node} {orderId : Nat} {order : LimitOrder}

theorem cancelOrder_run (horder : s.orders.lookup orderId = some order) {rs : List OfferRef}
    (h : s.openOffers order.correspondingOffers = .ok rs) :
    (cancelOrder orderId).run s = (timeoutOffers rs).run s := by
  unfold cancelOrder
  rw [EStateM.run_bind, EStateM.run_get]
  simp only [horder, h]
  exact EStateM.run_seq_ok (EStateM.run_ofExcept_ok rs s)

/-- The open offers of an order are open. -/
theorem open_of_openOffers {l : List (Nat × OfferRef)} {rs : List OfferRef}
    (h : s.openOffers l = .ok rs) : ∀ r ∈ rs, ∃ o, s.offers[r]? = some o ∧ o.isModel = true ∧
      o.state.status = .open_ := by
  induction l generalizing rs with
  | nil => cases h; exact fun _ h => (List.not_mem_nil h).elim
  | cons x l ih =>
    obtain ⟨o, others, ho, hmodel, hl, rfl⟩ := openOffers_cons.mp h
    intro r hr
    split at hr
    next hopen =>
      rcases List.mem_cons.mp hr with rfl | hr
      · exact ⟨o, ho, hmodel, hopen⟩
      · exact ih hl r hr
    next => exact ih hl r hr

/-- With open offers, the first asks for its cancellation, and that is all. -/
theorem cancelOrder_open (horder : s.orders.lookup orderId = some order) {r : OfferRef}
    {rs : List OfferRef} (h : s.openOffers order.correspondingOffers = .ok (r :: rs)) :
    ∃ o, s.offers[r]? = some o ∧ (cancelOrder orderId).run s =
      .error .typeError (s.entered r o .openCancellationRequested {}) := by
  obtain ⟨o, ho, hmodel, hopen⟩ := open_of_openOffers h r (List.mem_cons_self ..)
  have hd : OfferTrigger.timeout.dest o.state = some .openCancellationRequested := if_pos hopen
  refine ⟨o, ho, ?_⟩
  rw [cancelOrder_run horder h, timeoutOffers,
    EStateM.run_seq_ok (callOffer_ok ho hmodel hd (by intro h; cases h))]
  rfl

/-- An offer that is no model has no status to look at. -/
theorem cancelOrder_unknown (horder : s.orders.lookup orderId = some order) {err : PyError}
    (h : s.openOffers order.correspondingOffers = .error err) :
    (cancelOrder orderId).run s = .error err s := by
  unfold cancelOrder
  rw [EStateM.run_bind, EStateM.run_get]
  simp only [horder, h]
  exact EStateM.run_seq_error (EStateM.run_ofExcept_error err s)

theorem cancels_iff (horder : s.orders.lookup orderId = some order) :
    (∃ s', (cancelOrder orderId).run s = .ok () s' ∧ Cancels order s s') ↔
      ∀ x ∈ order.correspondingOffers, ∃ o, s.offers[x.2]? = some o ∧ o.isModel = true ∧
        o.state.status ≠ .open_ := by
  constructor
  · rintro ⟨s', hrun, -⟩
    rw [← openOffers_nil_iff]
    cases h : s.openOffers order.correspondingOffers with
    | error err =>
      rw [cancelOrder_unknown horder h] at hrun
      cases hrun
    | ok rs =>
      cases rs with
      | nil => rfl
      | cons r rs =>
        obtain ⟨o, -, hraise⟩ := cancelOrder_open horder h
        rw [hraise] at hrun
        cases hrun
  · intro hclosed
    refine ⟨s, cancelOrder_run horder (openOffers_nil_iff.mpr hclosed), ?_⟩
    refine ⟨fun x hx o ho hopen => ?_, fun _ _ => rfl, fun _ _ => rfl, rfl, rfl, rfl, rfl⟩
    obtain ⟨o', ho', -, hne⟩ := hclosed x hx
    cases ho.symm.trans ho'
    exact absurd hopen hne

end

/-- In every reachable node, `cancel_order` cancels a known order exactly when all its offers are
models and none of them is open. -/
theorem cancel_order_iff (C : Crypto) (market : TokenPair) (commitmentServiceAddress : Address)
    (is : List App.Input) (orderId : Nat) {order : LimitOrder}
    (h : (App.run C market commitmentServiceAddress is).node.orders.lookup orderId = some order) :
    (∃ s', (cancelOrder orderId).run (App.run C market commitmentServiceAddress is).node =
        .ok () s' ∧ Cancels order (App.run C market commitmentServiceAddress is).node s') ↔
      ∀ x ∈ order.correspondingOffers,
        ∃ o, (App.run C market commitmentServiceAddress is).node.offers[x.2]? = some o ∧
          o.isModel = true ∧ o.state.status ≠ .open_ :=
  cancels_iff h

/-- An order is posted, and the node waits for the commitment to its offer. -/
def waiting : App := App.run .plain { baseToken := 1, quoteToken := 2 } 9 (limitOrder 3 "SELL")

/-- The offer has been canceled on a proof. -/
def withdrawn : App := App.run .plain { baseToken := 1, quoteToken := 2 } 9
  (limitOrder 3 "SELL" ++
    [.cancellationProof { offerId := 2
                          cancellationProof := { commitmentSig := none, secret := 3,
                                                 secretHash := 3, offerId := 2, signature := none }
                          signature := none },
     .handle { now := 0, orderUuid := 1, offerUuid := 2 }])

/-- An order whose only offer is canceled already can be canceled. -/
theorem withdrawn_order_cancelled : ∃ order, withdrawn.node.orders.lookup 3 = some order ∧
    ∃ s', (cancelOrder 3).run withdrawn.node = .ok () s' ∧ Cancels order withdrawn.node s' := by
  refine ⟨_, rfl, (cancel_order_iff .plain { baseToken := 1, quoteToken := 2 } 9 _ 3 rfl).mpr ?_⟩
  intro x hx
  obtain rfl : x = (2, 0) := List.mem_singleton.mp hx
  exact ⟨_, rfl, rfl, nofun⟩

/-- An order with an open offer is not canceled. -/
theorem waiting_order_not_cancelled : ∃ order, waiting.node.orders.lookup 3 = some order ∧
    ¬ ∃ s', (cancelOrder 3).run waiting.node = .ok () s' ∧ Cancels order waiting.node s' := by
  refine ⟨_, rfl, ?_⟩
  rintro ⟨s', hrun, -⟩
  have hret : EStateM.Returns (cancelOrder 3) waiting.node := EStateM.returns_of_ok hrun
  revert hret
  decide +kernel

end RaidexNode
end Raidex
