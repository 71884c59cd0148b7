import Raidex.RaidexNode.Handlers

/-!
# Raidex.RaidexNode.Effects

What one state change does to a node.

* `Effect`: the changes a handler makes, each a few statements that succeed or fail together.
* `Broken`: what a handler that raises leaves half done.
* `callOffer_ok`, `createNewTimeout_ok` and so on: what the primitive operations do.
-/

namespace Raidex
namespace RaidexNode

open EStateM (Proceeds)
open Relation (ReflTransGen)

/-! ## Primitive operations -/

/-- An offer has entered a state. -/
def Node.entered (s : Node) (r : OfferRef) (o : Offer) (d : OfferState) (k : OfferKwargs) :
    Node :=
  { s with offers := s.offers.set r (o.enter d k)
           events := s.events ++ entryEvents r d k }

/-- The offer at `r` takes the trigger. -/
def Node.CanFire (s : Node) (r : OfferRef) (t : OfferTrigger) : Prop :=
  ∃ o, s.offers[r]? = some o ∧ o.isModel = true ∧ ∃ d, t.dest o.state = some d

/-- A new timer for the offer id does not raise `AlreadyTimedOut`. -/
def Node.Startable (s : Node) (offerId : Nat) : Prop :=
  s.hasGreenlet offerId = true → s.isStillAlive offerId = true

/-- A new offer object, kept by the offer manager. -/
def Node.created (s : Node) (o : BasicOffer Number) (role : TraderRole) : Node :=
  { s with offers := s.offers ++ [Offer.new o role (!s.hasEqualModel o)]
           models := if !s.hasEqualModel o then s.models ++ [s.nextOffer] else s.models
           offerManager := s.offerManager.insert o.offerId s.nextOffer }

section

variable {s : Node} {r : OfferRef} {t : OfferTrigger} {k : OfferKwargs} {o : Offer}
  {d : OfferState}

theorem readOffer_ok (h : s.offers[r]? = some o) : (readOffer r).run s = .ok o s := by
  unfold readOffer
  rw [EStateM.run_bind, EStateM.run_get]
  simp only [h]
  rfl

theorem readOffer_error (h : s.offers[r]? = none) :
    (readOffer r).run s = .error .attributeError s := by
  unfold readOffer
  rw [EStateM.run_bind, EStateM.run_get]
  simp only [h]
  rfl

theorem removeModel_ok {r' : OfferRef} (h : s.findModel r o = some r') :
    (removeModel r o).run s = .ok () { s with models := s.models.erase r' } := by
  unfold removeModel
  rw [EStateM.run_bind, EStateM.run_get]
  simp only [h]
  rfl

theorem removeModel_error (h : s.findModel r o = none) :
    (removeModel r o).run s = .error .valueError s := by
  unfold removeModel
  rw [EStateM.run_bind, EStateM.run_get]
  simp only [h]
  rfl

theorem callOffer_ok (ho : s.offers[r]? = some o) (hmodel : o.isModel = true)
    (hd : t.dest o.state = some d) (hkwargs : t = .receivedInbound → k.raidenEvent.isSome) :
    (callOffer r t k).run s = .ok () (s.entered r o d k) := by
  unfold callOffer
  rw [EStateM.run_seq_ok (readOffer_ok ho)]
  simp only [hmodel, Bool.not_true, Bool.false_eq_true, if_false]
  simp only [offerMachine_run (x := { offer := o, out := [] }) hd hkwargs]
  rfl

theorem callOffer_error (h : ¬ s.CanFire r t) : ∃ e, (callOffer r t k).run s = .error e s := by
  unfold callOffer
  cases ho : s.offers[r]? with
  | none => exact ⟨_, EStateM.run_seq_error (readOffer_error ho)⟩
  | some o =>
    rw [EStateM.run_seq_ok (readOffer_ok ho)]
    cases hmodel : o.isModel with
    | false => exact ⟨_, rfl⟩
    | true =>
      have hd : t.dest o.state = none := by
        cases hd : t.dest o.state with
        | none => rfl
        | some d => exact absurd ⟨o, ho, hmodel, d, hd⟩ h
      simp only [Bool.not_true, Bool.false_eq_true, if_false]
      simp only [offerMachine_undeclared (x := { offer := o, out := [] }) hd]
      refine ⟨.machineError, ?_⟩
      have hset : s.offers.set r o = s.offers := by
        obtain ⟨hr, rfl⟩ := List.getElem?_eq_some_iff.mp ho
        exact List.set_getElem_self hr
      rw [EStateM.run_bind, EStateM.run_modify]
      simp [hset]

end

theorem createTakeOffer_run (s : Node) (e : OfferBookEntry) :
    (createTakeOffer e).run s = .ok s.nextOffer (s.created e.takeOffer .taker) := rfl

theorem createMakeOffer_run (s : Node) (o : BasicOffer Number) :
    (createMakeOffer o).run s = .ok s.nextOffer (s.created o .maker) := rfl

section

variable {s : Node} (env : Env) {offerId date : Nat} (threshold : Nat)

theorem createNewTimeout_ok (hs : s.Startable offerId) (hdate : date ≤ maxTimestamp) :
    (createNewTimeout env offerId date threshold).run s =
      .ok true ((s.cleanUpTimeout offerId).startTimeout offerId date
        ((date - env.now : Int) - threshold)) := by
  unfold createNewTimeout
  rw [EStateM.run_bind, EStateM.run_get]
  have hcond : (s.hasGreenlet offerId && !s.isStillAlive offerId) = false := by
    cases hg : s.hasGreenlet offerId with
    | false => rfl
    | true => rw [hs hg]; rfl
  simp only [hcond, Bool.false_eq_true, if_false, secondsToTimeout_ok hdate]
  rfl

/-- The timer that a failed `create_new_timeout` was to replace may be gone. -/
theorem createNewTimeout_error (h : ¬ (s.Startable offerId ∧ date ≤ maxTimestamp)) :
    ∃ err s', (createNewTimeout env offerId date threshold).run s = .error err s' ∧
      (s' = s ∨ s' = s.cleanUpTimeout offerId) := by
  unfold createNewTimeout
  rw [EStateM.run_bind, EStateM.run_get]
  cases hcond : (s.hasGreenlet offerId && !s.isStillAlive offerId) with
  | true =>
    simp only [hcond, if_true]
    exact ⟨_, _, rfl, .inl rfl⟩
  | false =>
    have hs : s.Startable offerId := fun hg => by simpa [hg] using hcond
    have hdate : ¬ date ≤ maxTimestamp := fun hd => h ⟨hs, hd⟩
    simp only [hcond, Bool.false_eq_true, if_false, secondsToTimeout_error hdate]
    exact ⟨_, _, rfl, .inr rfl⟩

end

theorem removeFromBook_removed {s : Node} {offerId : Nat} {book : OfferBook}
    (h : s.offerBook.removeOffer offerId = .ok book) :
    (removeFromBook offerId).run s = .ok () { s with offerBook := book } := by
  unfold removeFromBook
  rw [EStateM.run_bind, EStateM.run_get]
  simp only [h]
  rfl

theorem removeFromBook_ok {s : Node} {offerId : Nat} (h : s.offerBook.contains offerId = true) :
    ∃ book, (removeFromBook offerId).run s = .ok () { s with offerBook := book } ∧
      ∀ id, id ≠ offerId → book.contains id = s.offerBook.contains id := by
  obtain ⟨book, hbook, hids⟩ := OfferBook.removeOffer_ok h
  exact ⟨book, removeFromBook_removed hbook, hids⟩

theorem removeFromBook_error {s : Node} {offerId : Nat}
    (h : s.offerBook.contains offerId = false) :
    (removeFromBook offerId).run s = .error .offerNotFound s := by
  unfold removeFromBook
  rw [EStateM.run_bind, EStateM.run_get]
  simp only [OfferBook.removeOffer_error h]
  rfl

/-! ## Effects -/

/-- Messages to send and calls about channels. -/
def Event.quiet : Event → Bool
  | .transport _ | .trader (.makeChannel ..) | .raidenListener .channelFilter => true
  | _ => false

/-- Offers and matches are as before. -/
structure Quiet (s s' : Node) : Prop where
  offers : s'.offers = s.offers
  models : s'.models = s.models
  offerManager : s'.offerManager = s.offerManager
  matchesById : s'.matchesById = s.matchesById
  events : ∃ es, s'.events = s.events ++ es ∧ ∀ e ∈ es, e.quiet = true

theorem Quiet.of_eq {s s' : Node} (offers : s'.offers = s.offers) (models : s'.models = s.models)
    (offerManager : s'.offerManager = s.offerManager)
    (matchesById : s'.matchesById = s.matchesById) (events : s'.events = s.events) : Quiet s s' :=
  ⟨offers, models, offerManager, matchesById, [], by rw [events, List.append_nil], by simp⟩

/-- An entry of the book has become an offer of the node, with its match. -/
def Node.taken (s : Node) (e : OfferBookEntry) : Node :=
  { s.created e.takeOffer .taker with
    matchesById := s.matchesById.insert e.offerId (takerMatch s.nextOffer e) }

/-- The offer `o` at `r` starts exchanging for its match `m`. -/
def Node.exchanging (s : Node) (m : Match) (r : OfferRef) (o : Offer) : Node :=
  { s.entered r o .pendingExchanging {} with
    events := (s.entered r o .pendingExchanging {}).events ++
      [.trader (.swapInit m), .raidenListener (.expectInbound m.target o.offerId)] }

/-- The triggers a handler fires on an offer, other than for a match. -/
inductive Fires : StateChange → Node → OfferRef → Offer → OfferTrigger → OfferKwargs → Prop
  | initiating {s r o} (data : OrderData) : Fires (.newLimitOrder data) s r o .initiating {}
  | timeout {s r o} (offerId date : Nat) (hr : s.getOffer offerId = some r) :
    Fires (.offerTimeout offerId date) s r o .timeout {}
  | canceled {s r o} (orderId : Nat) (order : LimitOrder)
      (horder : s.orders.lookup orderId = some order)
      (hr : r ∈ order.correspondingOffers.map Prod.snd) :
    Fires (.cancelLimitOrder orderId) s r o .timeout {}
  | cancellationProved {s r o} (p : CancellationProof) (hr : s.getOffer p.offerId = some r) :
    Fires (.cancellationProof p) s r o .receiveCancellationProof {}
  | published {s r o} (e : OfferBookEntry) (hr : s.getOffer e.offerId = some r) :
    Fires (.offerPublished e) s r o .receivedOffer {}
  | proved {s r o} (p : CommitmentProof) (hr : s.getOffer p.offerId = some r)
      (hm : s.matchesById.lookup o.offerId = none) :
    Fires (.commitmentProof p) s r o .receiveCommitmentProof { proof := some p }
  | inbound {s r o} (e : PaymentReceivedEvent) (m : Match)
      (hm : s.matchesById.lookup e.identifier = some m) (hr : m.offer = some r)
      (hstate : o.state = .pendingExchanging) :
    Fires (.transferReceived e) s r o .receivedInbound { raidenEvent := some e }

/-- A change that a handler makes. Under `fresh` it registers unknown offer ids only. -/
inductive Effect (fresh : Prop) : StateChange → Node → Node → Prop
  | quiet {sc s s'} (h : Quiet s s') : Effect fresh sc s s'
  | created {s} (data : OrderData) (o : BasicOffer Number) (role : TraderRole)
      (hfresh : fresh → s.hasOffer o.offerId = false) :
    Effect fresh (.newLimitOrder data) s (s.created o role)
  | taken {s} (data : OrderData) (e : OfferBookEntry)
      (hfresh : fresh → s.hasOffer e.offerId = false) :
    Effect fresh (.newLimitOrder data) s (s.taken e)
  | entered {sc s r o t k d} (ho : s.offers[r]? = some o) (hmodel : o.isModel = true)
      (hd : t.dest o.state = some d) (hfires : Fires sc s r o t k) :
    Effect fresh sc s (s.entered r o d k)
  | provedMatched {s r o m r' o'} (p : CommitmentProof) (hr : s.getOffer p.offerId = some r)
      (ho : s.offers[r]? = some o) (hmodel : o.isModel = true) (hstate : o.state = .openUnproved)
      (hm : s.matchesById.lookup o.offerId = some m) (hr' : m.offer = some r')
      (ho' : (s.entered r o .openProved { proof := some p }).offers[r']? = some o')
      (hmodel' : o'.isModel = true)
      (hd : OfferTrigger.foundMatch.dest o'.state = some .pendingExchanging) :
    Effect fresh (.commitmentProof p) s
      ((s.entered r o .openProved { proof := some p }).exchanging m r' o')
  | called {s r o} (offerId : Nat) (initiator : Address) (p : CommitmentProof)
      (hr : s.getOffer offerId = some r) (ho : s.offers[r]? = some o) (hmodel : o.isModel = true)
      (hd : OfferTrigger.foundMatch.dest o.state = some .pendingExchanging) :
    Effect fresh (.takerCall offerId initiator p) s
      ({ s with matchesById :=
          s.matchesById.insert offerId (makerMatch (some r) initiator p) }.exchanging
        (makerMatch (some r) initiator p) r o)
  | completed {s r o m r'} (e : PaymentReceivedEvent)
      (hm : s.matchesById.lookup e.identifier = some m) (hr : m.offer = some r)
      (ho : s.offers[r]? = some o) (hmodel : o.isModel = true)
      (hstate : o.state = .pendingWaitForRefund)
      (hr' : (s.entered r o .completed { raidenEvent := some e }).findModel r o = some r') :
    Effect fresh (.transferReceived e) s
      { s.entered r o .completed { raidenEvent := some e } with models := s.models.erase r' }

/-- What a handler that raises may leave behind. -/
inductive Broken : StateChange → Node → Node → Prop
  | unmatched {s r o m} (p : CommitmentProof) (hr : s.getOffer p.offerId = some r)
      (ho : s.offers[r]? = some o) (hmodel : o.isModel = true) (hstate : o.state = .openUnproved)
      (hm : s.matchesById.lookup o.offerId = some m) :
    Broken (.commitmentProof p) s (s.entered r o .openProved { proof := some p })
  | called {s} (offerId : Nat) (initiator : Address) (p : CommitmentProof) :
    Broken (.takerCall offerId initiator p) s
      { s with matchesById :=
          s.matchesById.insert offerId (makerMatch (s.getOffer offerId) initiator p) }
  | unremoved {s r o m} (e : PaymentReceivedEvent)
      (hm : s.matchesById.lookup e.identifier = some m) (hr : m.offer = some r)
      (ho : s.offers[r]? = some o) (hmodel : o.isModel = true)
      (hstate : o.state = .pendingWaitForRefund) :
    Broken (.transferReceived e) s
      ((s.entered r o .completed { raidenEvent := some e }).cleanUpTimeout e.identifier)

theorem Quiet.single {fresh : Prop} {sc : StateChange} {s s' : Node} (h : Quiet s s') :
    ReflTransGen (Effect fresh sc) s s' :=
  .single (.quiet h)

theorem cleanUpTimeout_quiet (s : Node) (offerId : Nat) : Quiet s (s.cleanUpTimeout offerId) :=
  .of_eq rfl rfl rfl rfl rfl

theorem startTimeout_quiet (s : Node) (offerId date : Nat) (lifetime : Int) :
    Quiet s ((s.cleanUpTimeout offerId).startTimeout offerId date lifetime) :=
  .of_eq rfl rfl rfl rfl rfl

theorem book_quiet (s : Node) (book : OfferBook) : Quiet s { s with offerBook := book } :=
  .of_eq rfl rfl rfl rfl rfl

theorem orders_quiet (s : Node) (orders : Dict Nat LimitOrder) :
    Quiet s { s with orders := orders } :=
  .of_eq rfl rfl rfl rfl rfl

theorem dispatchEvents_quiet {s : Node} {es : List Event} (h : ∀ e ∈ es, e.quiet = true) :
    Quiet s { s with events := s.events ++ es } :=
  ⟨rfl, rfl, rfl, rfl, es, rfl, h⟩

section

variable (s : Node) (orderId : Nat) (f : LimitOrder → LimitOrder)

@[simp] theorem updateOrder_offers : (s.updateOrder orderId f).offers = s.offers := by
  unfold Node.updateOrder; split <;> rfl

@[simp] theorem updateOrder_models : (s.updateOrder orderId f).models = s.models := by
  unfold Node.updateOrder; split <;> rfl

@[simp] theorem updateOrder_offerManager :
    (s.updateOrder orderId f).offerManager = s.offerManager := by
  unfold Node.updateOrder; split <;> rfl

@[simp] theorem updateOrder_matchesById :
    (s.updateOrder orderId f).matchesById = s.matchesById := by
  unfold Node.updateOrder; split <;> rfl

@[simp] theorem updateOrder_offerBook : (s.updateOrder orderId f).offerBook = s.offerBook := by
  unfold Node.updateOrder; split <;> rfl

@[simp] theorem updateOrder_timeoutGreenlets :
    (s.updateOrder orderId f).timeoutGreenlets = s.timeoutGreenlets := by
  unfold Node.updateOrder; split <;> rfl

@[simp] theorem updateOrder_events : (s.updateOrder orderId f).events = s.events := by
  unfold Node.updateOrder; split <;> rfl

end

end RaidexNode
end Raidex
