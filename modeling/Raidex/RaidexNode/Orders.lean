import Raidex.RaidexNode.Effects

/-!
# Raidex.RaidexNode.Orders

What `process_order` does: it takes the matching entries one after the other, then offers the
rest of the order.

* `takeOffer_returns_iff`, `offerRest_returns_iff`: when one of these steps returns.
* `processOrder_proceeds`: whether it returns or raises, it proceeds by effects; they register
  unknown ids only when the order is fresh.
-/

namespace Raidex
namespace RaidexNode

open EStateM (Proceeds)
open Relation (ReflTransGen)

/-! ## Taking an offer -/

/-- What `takeOffer` needs to return: no dead timer under the id, a date that a timer can wait
for, no equal offer among the models, and the id in the book. -/
structure CanTake (s : Node) (e : OfferBookEntry) : Prop where
  startable : s.Startable e.offerId
  date : e.offer.timeoutDate ≤ maxTimestamp
  distinct : s.hasEqualModel e.takeOffer = false
  listed : s.offerBook.contains e.offerId = true

/-- The offer is with its order and its match, and its timer runs. -/
def Node.registered (s : Node) (env : Env) (orderId : Nat) (e : OfferBookEntry) : Node :=
  let timed := ((s.taken e).cleanUpTimeout e.offerId).startTimeout e.offerId e.offer.timeoutDate
    ((e.offer.timeoutDate - env.now : Int) - (0 : Nat))
  timed.updateOrder orderId fun order =>
    { order with correspondingOffers := setItem e.offerId s.nextOffer order.correspondingOffers }

def Node.initiated (s : Node) (env : Env) (orderId : Nat) (e : OfferBookEntry) : Node :=
  (s.registered env orderId e).entered s.nextOffer (.new e.takeOffer .taker true) .openUnproved {}

section

variable {s : Node} {env : Env} {orderId : Nat} {e : OfferBookEntry}

theorem registered_quiet : Quiet (s.taken e) (s.registered env orderId e) :=
  .of_eq (updateOrder_offers ..) (updateOrder_models ..) (updateOrder_offerManager ..)
    (updateOrder_matchesById ..) (updateOrder_events ..)

theorem registered_getElem? : (s.registered env orderId e).offers[s.nextOffer]? =
    some (.new e.takeOffer .taker (!s.hasEqualModel e.takeOffer)) := by
  rw [registered_quiet.offers]
  exact List.getElem?_concat_length

/-- `takeOffer`, up to the call of the new offer. -/
theorem takeOffer_registered (hs : s.Startable e.offerId)
    (hdate : e.offer.timeoutDate ≤ maxTimestamp) :
    (takeOffer env orderId e).run s =
      (do callOffer s.nextOffer .initiating {}
          removeFromBook e.offerId : NodeM Unit).run (s.registered env orderId e) := by
  unfold takeOffer
  rw [EStateM.run_seq_ok (createTakeOffer_run s e)]
  have htimeout := createNewTimeout_ok (s := s.created e.takeOffer .taker) env 0 hs
    hdate
  rw [EStateM.run_seq_ok htimeout]
  rfl

variable (env orderId) in
theorem takeOffer_refused (h : ¬ (s.Startable e.offerId ∧ e.offer.timeoutDate ≤ maxTimestamp)) :
    ∃ err s', (takeOffer env orderId e).run s = .error err s' ∧
      Quiet (s.created e.takeOffer .taker) s' := by
  obtain ⟨err, s', hrun, hs'⟩ := createNewTimeout_error (s := s.created e.takeOffer .taker)
    env 0 h
  refine ⟨err, s', ?_, ?_⟩
  · unfold takeOffer
    rw [EStateM.run_seq_ok (createTakeOffer_run s e)]
    exact EStateM.run_seq_error hrun
  · rcases hs' with rfl | rfl
    · exact .of_eq rfl rfl rfl rfl rfl
    · exact cleanUpTimeout_quiet _ _

variable (env orderId) in
theorem takeOffer_unmodelled (hs : s.Startable e.offerId)
    (hdate : e.offer.timeoutDate ≤ maxTimestamp) (h : s.hasEqualModel e.takeOffer = true) :
    ∃ err, (takeOffer env orderId e).run s = .error err (s.registered env orderId e) := by
  have hfire : ¬ (s.registered env orderId e).CanFire s.nextOffer .initiating := by
    rintro ⟨o, ho, hmodel, -⟩
    rw [registered_getElem?, h] at ho
    cases ho; cases hmodel
  obtain ⟨err, hrun⟩ := callOffer_error (k := {}) hfire
  exact ⟨err, by rw [takeOffer_registered hs hdate]; exact EStateM.run_seq_error hrun⟩

theorem takeOffer_initiated (hs : s.Startable e.offerId)
    (hdate : e.offer.timeoutDate ≤ maxTimestamp) (h : s.hasEqualModel e.takeOffer = false) :
    (takeOffer env orderId e).run s =
      (removeFromBook e.offerId).run (s.initiated env orderId e) := by
  rw [takeOffer_registered hs hdate]
  have ho : (s.registered env orderId e).offers[s.nextOffer]? =
      some (.new e.takeOffer .taker true) := by
    rw [registered_getElem?, h]; rfl
  exact EStateM.run_seq_ok (callOffer_ok (k := {}) ho rfl rfl nofun)

theorem initiated_offerBook : (s.initiated env orderId e).offerBook = s.offerBook :=
  updateOrder_offerBook ..

variable (env orderId) in
theorem takeOffer_ok (h : CanTake s e) : ∃ book,
    (takeOffer env orderId e).run s = .ok () { s.initiated env orderId e with offerBook := book } ∧
      ∀ id, id ≠ e.offerId → book.contains id = s.offerBook.contains id := by
  obtain ⟨book, hrun, hids⟩ := removeFromBook_ok (s := s.initiated env orderId e)
    (by rw [initiated_offerBook]; exact h.listed)
  refine ⟨book, ?_, fun id hid => by rw [hids id hid, initiated_offerBook]⟩
  rw [takeOffer_initiated h.startable h.date h.distinct, hrun]

theorem takeOffer_returns_iff :
    EStateM.Returns (takeOffer env orderId e) s ↔ CanTake s e := by
  refine EStateM.returns_iff_of (fun h => ?_) fun hcan => ?_
  · obtain ⟨book, hrun, -⟩ := takeOffer_ok env orderId h
    exact ⟨(), _, hrun⟩
  · by_cases htime : s.Startable e.offerId ∧ e.offer.timeoutDate ≤ maxTimestamp
    swap
    · obtain ⟨err, s', hrun, -⟩ := takeOffer_refused env orderId htime
      exact ⟨err, s', hrun⟩
    obtain ⟨hs, hdate⟩ := htime
    cases hdistinct : s.hasEqualModel e.takeOffer with
    | true =>
      obtain ⟨err, hrun⟩ := takeOffer_unmodelled env orderId hs hdate hdistinct
      exact ⟨err, _, hrun⟩
    | false =>
      cases hlisted : s.offerBook.contains e.offerId with
      | true => exact absurd ⟨hs, hdate, hdistinct, hlisted⟩ hcan
      | false =>
        refine ⟨_, _, (takeOffer_initiated hs hdate hdistinct).trans (removeFromBook_error ?_)⟩
        rw [initiated_offerBook]
        exact hlisted

theorem takeOffer_returned {s₁ : Node} (h : (takeOffer env orderId e).run s = .ok () s₁) :
    CanTake s e ∧ ∃ book, s₁ = { s.initiated env orderId e with offerBook := book } ∧
      ∀ id, id ≠ e.offerId → book.contains id = s.offerBook.contains id := by
  have hcan : CanTake s e := takeOffer_returns_iff.mp (EStateM.returns_of_ok h)
  obtain ⟨book, hrun, hids⟩ := takeOffer_ok env orderId hcan
  rw [h] at hrun
  cases hrun
  exact ⟨hcan, book, rfl, hids⟩

variable {fresh : Prop} {data : OrderData}

variable (env orderId data) in
theorem initiated_steps (hf : fresh → s.hasOffer e.offerId = false)
    (h : s.hasEqualModel e.takeOffer = false) :
    ReflTransGen (Effect fresh (.newLimitOrder data)) s (s.initiated env orderId e) := by
  have hreg : ReflTransGen (Effect fresh (.newLimitOrder data)) s (s.registered env orderId e) :=
    (ReflTransGen.single (.taken data e hf)).trans registered_quiet.single
  refine hreg.tail (.entered (t := .initiating) (k := {}) ?_ rfl rfl (.initiating data))
  rw [registered_getElem?, h]; rfl

theorem takeOffer_proceeds (hf : fresh → s.hasOffer e.offerId = false) :
    Proceeds (Effect fresh (.newLimitOrder data)) (Broken (.newLimitOrder data))
      (takeOffer env orderId e) s := by
  by_cases htime : s.Startable e.offerId ∧ e.offer.timeoutDate ≤ maxTimestamp
  swap
  · obtain ⟨err, s', hrun, hq⟩ := takeOffer_refused env orderId htime
    exact EStateM.proceeds_error hrun
      ((ReflTransGen.single (.created data e.takeOffer .taker hf)).trans hq.single)
  obtain ⟨hs, hdate⟩ := htime
  cases hdistinct : s.hasEqualModel e.takeOffer with
  | true =>
    obtain ⟨err, hrun⟩ := takeOffer_unmodelled env orderId hs hdate hdistinct
    exact EStateM.proceeds_error hrun
      ((ReflTransGen.single (.taken data e hf)).trans registered_quiet.single)
  | false =>
    have hsteps := initiated_steps env orderId data hf hdistinct
    cases hlisted : s.offerBook.contains e.offerId with
    | true =>
      obtain ⟨book, hrun, -⟩ := takeOffer_ok env orderId
        ⟨hs, hdate, hdistinct, hlisted⟩
      exact EStateM.proceeds_ok hrun (hsteps.trans (book_quiet _ book).single)
    | false =>
      refine EStateM.proceeds_error
        ((takeOffer_initiated hs hdate hdistinct).trans (removeFromBook_error ?_)) hsteps
      rw [initiated_offerBook]; exact hlisted

theorem initiated_hasOffer {id : Nat} :
    (s.initiated env orderId e).hasOffer id = (id = e.offerId || s.hasOffer id) := by
  have hman : (s.initiated env orderId e).offerManager =
      s.offerManager.insert e.offerId s.nextOffer := updateOrder_offerManager ..
  simp only [Node.hasOffer, hman, AList.mem_insert, Bool.decide_or]

end

section

variable {s : Node} {env : Env} {orderId : Nat} {es : List OfferBookEntry} {fresh : Prop}
  {data : OrderData}

theorem takeOffers_proceeds (hnodup : (es.map OfferBookEntry.offerId).Nodup)
    (hf : fresh → ∀ e ∈ es, s.hasOffer e.offerId = false) :
    Proceeds (Effect fresh (.newLimitOrder data)) (Broken (.newLimitOrder data))
      (takeOffers env orderId es) s := by
  induction es generalizing s with
  | nil => exact EStateM.proceeds_ok (t := s) rfl .refl
  | cons e es ih =>
    rw [List.map_cons, List.nodup_cons] at hnodup
    refine EStateM.proceeds_bind (takeOffer_proceeds fun h => hf h e (List.mem_cons_self ..)) ?_
    intro _ s₁ hrun
    obtain ⟨-, book, rfl, -⟩ := takeOffer_returned hrun
    refine ih hnodup.2 ?_
    intro h e' he'
    have hne : e'.offerId ≠ e.offerId := fun heq =>
      hnodup.1 (heq ▸ List.mem_map_of_mem he')
    show (s.initiated env orderId e).hasOffer e'.offerId = false
    rw [initiated_hasOffer, hf h e' (List.mem_cons_of_mem _ he')]
    simpa using hne

/-- The offers registered by an order that returned. -/
theorem takeOffers_hasOffer {s' : Node} (h : (takeOffers env orderId es).run s = .ok () s')
    (id : Nat) : s'.hasOffer id = (id ∈ es.map OfferBookEntry.offerId || s.hasOffer id) := by
  induction es generalizing s with
  | nil => cases h; simp
  | cons e es ih =>
    obtain ⟨_, s₁, hrun, h⟩ := EStateM.run_bind_eq_ok.mp h
    obtain ⟨-, book, rfl, -⟩ := takeOffer_returned hrun
    rw [ih h]
    have hone : Node.hasOffer { s.initiated env orderId e with offerBook := book } id =
      (id = e.offerId || s.hasOffer id) := initiated_hasOffer
    rw [hone]
    simp only [List.map_cons, List.mem_cons, Bool.decide_or, Bool.or_assoc]
    cases decide (id = e.offerId) <;> simp

end

/-! ## Offering the rest -/

theorem LimitOrder.makeOffer_ok {order : LimitOrder} {env : Env} {amountLeft : Number}
    {o : BasicOffer Number} (h : order.makeOffer env amountLeft = .ok o) :
    o.offerId = createRandom32BytesId env.offerUuid ∧ o.type = order.orderType ∧
      o.timeoutDate ≤ maxTimestamp := by
  unfold makeOffer at h
  cases hq : amountLeft.mulFloat order.price with
  | error err => rw [hq] at h; cases h
  | ok f =>
    rw [hq] at h
    change (f.truncate >>= fun q => _) = _ at h
    cases ht : f.truncate with
    | error err => rw [ht] at h; cases h
    | ok q =>
      rw [ht] at h
      change (timePlus env.now order.lifetime >>= fun d => _) = _ at h
      unfold timePlus at h
      split at h
      · cases h
      · next hd =>
        cases h
        exact ⟨rfl, rfl, by simpa using hd⟩

/-- What `offerRest` needs to return. -/
def CanOffer (s : Node) (o : BasicOffer Number) : Prop :=
  s.Startable o.offerId ∧ s.hasEqualModel o = false

/-- The rest of the order is an offer, and its timer runs. -/
def Node.offered (s : Node) (env : Env) (orderId : Nat) (o : BasicOffer Number) : Node :=
  let timed := ((s.created o .maker).cleanUpTimeout o.offerId).startTimeout o.offerId o.timeoutDate
    ((o.timeoutDate - env.now : Int) - (0 : Nat))
  timed.updateOrder orderId fun order =>
    { order with correspondingOffers := setItem o.offerId s.nextOffer order.correspondingOffers }

section

variable {s : Node} {env : Env} {order : LimitOrder} {amountLeft : Number} {o : BasicOffer Number}

variable (env) in
theorem offered_quiet (orderId : Nat) : Quiet (s.created o .maker) (s.offered env orderId o) :=
  .of_eq (updateOrder_offers ..) (updateOrder_models ..) (updateOrder_offerManager ..)
    (updateOrder_matchesById ..) (updateOrder_events ..)

theorem offered_getElem? {orderId : Nat} : (s.offered env orderId o).offers[s.nextOffer]? =
    some (.new o .maker (!s.hasEqualModel o)) := by
  rw [(offered_quiet env orderId).offers]
  exact List.getElem?_concat_length

theorem offerRest_unpriced {err : PyError} (h : order.makeOffer env amountLeft = .error err) :
    (offerRest env order amountLeft).run s = .error err s := by
  unfold offerRest
  rw [h]
  rfl

theorem offerRest_refused (h : order.makeOffer env amountLeft = .ok o)
    (hs : ¬ s.Startable o.offerId) : ∃ err s',
    (offerRest env order amountLeft).run s = .error err s' ∧ Quiet (s.created o .maker) s' := by
  obtain ⟨err, s', hrun, hs'⟩ := createNewTimeout_error (s := s.created o .maker) env 0
    fun hboth : _ ∧ o.timeoutDate ≤ maxTimestamp => hs hboth.1
  refine ⟨err, s', ?_, ?_⟩
  · unfold offerRest
    rw [h]
    rw [EStateM.run_seq_ok (EStateM.run_ofExcept_ok o s),
      EStateM.run_seq_ok (createMakeOffer_run s o)]
    exact EStateM.run_seq_error hrun
  · rcases hs' with rfl | rfl
    · exact .of_eq rfl rfl rfl rfl rfl
    · exact cleanUpTimeout_quiet _ _

theorem offerRest_offered (h : order.makeOffer env amountLeft = .ok o)
    (hs : s.Startable o.offerId) : (offerRest env order amountLeft).run s =
      (callOffer s.nextOffer .initiating {}).run (s.offered env order.orderId o) := by
  have htimeout := createNewTimeout_ok (s := s.created o .maker) env 0 hs
    (LimitOrder.makeOffer_ok h).2.2
  unfold offerRest
  rw [h]
  exact EStateM.run_seq_ok htimeout

theorem offerRest_unmodelled (h : order.makeOffer env amountLeft = .ok o)
    (hs : s.Startable o.offerId) (heq : s.hasEqualModel o = true) : ∃ err,
    (offerRest env order amountLeft).run s = .error err (s.offered env order.orderId o) := by
  have hfire : ¬ (s.offered env order.orderId o).CanFire s.nextOffer .initiating := by
    rintro ⟨o', ho, hmodel, -⟩
    rw [offered_getElem?, heq] at ho
    cases ho; cases hmodel
  obtain ⟨err, hrun⟩ := callOffer_error (k := {}) hfire
  exact ⟨err, (offerRest_offered h hs).trans hrun⟩

theorem offerRest_ok (h : order.makeOffer env amountLeft = .ok o) (hcan : CanOffer s o) :
    (offerRest env order amountLeft).run s =
      .ok () ((s.offered env order.orderId o).entered s.nextOffer (.new o .maker true)
        .openUnproved {}) := by
  rw [offerRest_offered h hcan.1]
  refine callOffer_ok (k := {}) ?_ rfl rfl nofun
  rw [offered_getElem?, hcan.2]; rfl

theorem offerRest_returns_iff : EStateM.Returns (offerRest env order amountLeft) s ↔
    ∃ o, order.makeOffer env amountLeft = .ok o ∧ CanOffer s o := by
  refine EStateM.returns_iff_of ?_ fun hcan => ?_
  · rintro ⟨o, ho, hcan⟩
    exact ⟨(), _, offerRest_ok ho hcan⟩
  · cases h : order.makeOffer env amountLeft with
    | error err => exact ⟨err, s, offerRest_unpriced h⟩
    | ok o =>
      by_cases hs : s.Startable o.offerId
      swap
      · obtain ⟨err, s', hrun, -⟩ := offerRest_refused h hs
        exact ⟨err, s', hrun⟩
      cases heq : s.hasEqualModel o with
      | false => exact absurd ⟨o, h, hs, heq⟩ hcan
      | true =>
        obtain ⟨err, hrun⟩ := offerRest_unmodelled h hs heq
        exact ⟨err, _, hrun⟩

theorem offerRest_proceeds {fresh : Prop} {data : OrderData}
    (hf : fresh → s.hasOffer (createRandom32BytesId env.offerUuid) = false) :
    Proceeds (Effect fresh (.newLimitOrder data)) (Broken (.newLimitOrder data))
      (offerRest env order amountLeft) s := by
  cases h : order.makeOffer env amountLeft with
  | error err => exact EStateM.proceeds_error (offerRest_unpriced h) .refl
  | ok o =>
    have hcreated : ReflTransGen (Effect fresh (.newLimitOrder data)) s (s.created o .maker) := by
      refine .single (.created data o .maker fun hfresh => ?_)
      rw [(LimitOrder.makeOffer_ok h).1]
      exact hf hfresh
    by_cases hs : s.Startable o.offerId
    swap
    · obtain ⟨err, s', hrun, hq⟩ := offerRest_refused h hs
      exact EStateM.proceeds_error hrun (hcreated.trans hq.single)
    have hoffered := hcreated.trans
      (offered_quiet env order.orderId).single
    cases heq : s.hasEqualModel o with
    | true =>
      obtain ⟨err, hrun⟩ := offerRest_unmodelled h hs heq
      exact EStateM.proceeds_error hrun hoffered
    | false =>
      refine EStateM.proceeds_ok (offerRest_ok h ⟨hs, heq⟩) (hoffered.tail ?_)
      refine .entered (t := .initiating) (k := {}) ?_ rfl rfl (.initiating data)
      rw [offered_getElem?, heq]; rfl

end

/-- The order registers offer ids that the node does not know. -/
def OrderFresh (env : Env) (s : Node) (order : LimitOrder) : Prop :=
  ∀ x ∈ (matchLimit s.offerBook order.price order.orderType order.amount).toOption,
    (∀ e ∈ x.1, s.hasOffer e.offerId = false) ∧
    (x.2.positive = true → s.hasOffer (createRandom32BytesId env.offerUuid) = false ∧
      createRandom32BytesId env.offerUuid ∉ x.1.map OfferBookEntry.offerId)

instance (env : Env) (s : Node) (order : LimitOrder) : Decidable (OrderFresh env s order) :=
  inferInstanceAs (Decidable (∀ _ ∈ _, (∀ _ ∈ _, _) ∧ (_ → _ ∧ _)))

theorem processOrder_run {s : Node} {env : Env} {order : LimitOrder} {taken : List OfferBookEntry}
    {rest : Number}
    (h : matchLimit s.offerBook order.price order.orderType order.amount = .ok (taken, rest)) :
    (processOrder env order).run s =
      (do takeOffers env order.orderId taken
          if rest.positive then offerRest env order rest : NodeM Unit).run
        { s with orders := s.orders.insert order.orderId order } := by
  unfold processOrder
  rw [EStateM.run_bind, EStateM.run_modify]
  simp only
  rw [EStateM.run_bind, EStateM.run_get]
  simp only [h]
  rfl

theorem processOrder_proceeds {s : Node} {env : Env} {order : LimitOrder} {fresh : Prop}
    {data : OrderData} (hf : fresh → OrderFresh env s order) :
    Proceeds (Effect fresh (.newLimitOrder data)) (Broken (.newLimitOrder data))
      (processOrder env order) s := by
  obtain ⟨taken, rest, h⟩ := matchLimit_ok s.offerBook order.price order.orderType order.amount
  have hx : (taken, rest) ∈ (matchLimit s.offerBook order.price order.orderType
      order.amount).toOption := by rw [h]; rfl
  refine EStateM.proceeds_of_run_eq (processOrder_run h) (orders_quiet s _).single ?_
  refine EStateM.proceeds_bind (takeOffers_proceeds (matchLimit_nodup h)
    fun hfresh => (hf hfresh _ hx).1) ?_
  intro _ s₁ hrun
  split
  · next hrest =>
    refine offerRest_proceeds ?_
    intro hfresh
    obtain ⟨hnew, hother⟩ := (hf hfresh _ hx).2 hrest
    rw [takeOffers_hasOffer hrun, decide_eq_false hother]
    exact hnew
  · exact EStateM.proceeds_ok (t := s₁) rfl .refl

end RaidexNode
end Raidex
