import Raidex.RaidexNode.DataManager

/-!
# Raidex.RaidexNode.Handlers

`handle_state_change`: what the consumer of the node does with each state change.

A state change of class `OfferStateChange` goes through `handle_offer_state_change` first, which
does nothing with a timeout but looking up its offer.
-/

namespace Raidex
namespace RaidexNode

def defaultOfferLifetime : Nat := 60

/-- `OFFER_THRESHOLD_TIME`, in milliseconds -/
def offerThresholdTime : Nat := 10000

/-- The `data` of a new limit order. -/
structure OrderData where
  orderId : Option Nat
  orderType : String
  amount : Number
  price : Double
  lifetime : Option Nat

inductive StateChange where
  | newLimitOrder (data : OrderData)
  | cancelLimitOrder (orderId : Nat)
  | offerTimeout (offerId timeoutDate : Nat)
  | commitmentProof (commitmentProof : CommitmentProof)
  | cancellationProof (cancellationProof : CancellationProof)
  | takerCall (offerId : Nat) (initiator : Address) (commitmentProof : CommitmentProof)
  | offerPublished (offerEntry : OfferBookEntry)
  | transferReceived (raidenEvent : PaymentReceivedEvent)
  | channelStatus (channelRawData : String)
  | makeChannel (partnerAddress tokenAddress : String) (totalDeposit : Number)

def LimitOrder.fromDict (env : Env) (data : OrderData) : LimitOrder where
  orderId := data.orderId.getD (createRandom32BytesId env.orderUuid)
  orderType := if data.orderType = "BUY" then .buy else .sell
  amount := data.amount
  price := data.price
  lifetime := data.lifetime.getD defaultOfferLifetime
  correspondingOffers := []

/-- Call a method of what `get_offer` returned. -/
def callOffer? (offer : Option OfferRef) (t : OfferTrigger) (kwargs : OfferKwargs) : NodeM Unit :=
  match offer with
  | none => throw .attributeError
  | some r => callOffer r t kwargs

def handleOfferTimeout (offerId : Nat) : NodeM Unit := do
  let s ← get
  if s.hasOffer offerId then callOffer? (s.getOffer offerId) .timeout {}
  else if s.offerBook.contains offerId then removeFromBook offerId
  modify fun s => s.cleanUpTimeout offerId

def handleNewLimitOrder (env : Env) (data : OrderData) : NodeM Unit :=
  processOrder env (.fromDict env data)

def handleCancelLimitOrder (orderId : Nat) : NodeM Unit := cancelOrder orderId

def handleOfferPublished (env : Env) (e : OfferBookEntry) : NodeM Unit := do
  let s ← get
  if s.hasOffer e.offerId then callOffer? (s.getOffer e.offerId) .receivedOffer {}
  else
    let book ← MonadExcept.ofExcept (s.offerBook.insertOffer e)
    modify fun s => { s with offerBook := book }
    let _ ← createNewTimeout env e.offerId e.offer.timeoutDate offerThresholdTime

/-- The match of the offer, if it has one, is made now. -/
def handleCommitmentProof (offer : Option OfferRef) (commitmentProof : CommitmentProof) :
    NodeM Unit := do
  match offer with
  | none => throw .attributeError
  | some r =>
    callOffer r .receiveCommitmentProof { proof := some commitmentProof }
    let o ← readOffer r
    match (← get).matchesById.lookup o.offerId with
    | none => dispatchEvents [.transport (.sendProvenOffer r none)]
    | some m =>
      matched m
      dispatchEvents [.transport (.sendProvenOffer r (some m.target))]

def handleCancellationProof (offer : Option OfferRef) : NodeM Unit :=
  callOffer? offer .receiveCancellationProof {}

def handleTakerCall (offerId : Nat) (initiator : Address) (commitmentProof : CommitmentProof) :
    NodeM Unit := do
  let m := makerMatch ((← get).getOffer offerId) initiator commitmentProof
  setMatch offerId m
  matched m

def handleTransferReceived (raidenEvent : PaymentReceivedEvent) : NodeM Unit := do
  match (← get).matchesById.lookup raidenEvent.identifier with
  | none => throw .keyError
  | some m =>
    receivedInbound m raidenEvent
    match m.offer with
    | none => throw .attributeError
    | some r =>
      let o ← readOffer r
      if o.state = .completed then
        modify fun s => s.cleanUpTimeout raidenEvent.identifier
        removeModel r o

def handleChannelStatusUpdate (channelRawData : String) : NodeM Unit := do
  modify fun s => { s with channels := channelRawData }
  dispatchEvents [.raidenListener .channelFilter]

def handleMakeChannel (partnerAddress tokenAddress : String) (totalDeposit : Number) :
    NodeM Unit :=
  dispatchEvents [.trader (.makeChannel partnerAddress tokenAddress totalDeposit)]

def handleStateChange (env : Env) (sc : StateChange) : NodeM Unit :=
  match sc with
  | .newLimitOrder data => handleNewLimitOrder env data
  | .cancelLimitOrder orderId => handleCancelLimitOrder orderId
  | .offerTimeout offerId _ => handleOfferTimeout offerId
  | .commitmentProof p => do handleCommitmentProof ((← get).getOffer p.offerId) p
  | .cancellationProof p => do handleCancellationProof ((← get).getOffer p.offerId)
  | .takerCall offerId initiator p => handleTakerCall offerId initiator p
  | .offerPublished e => handleOfferPublished env e
  | .transferReceived e => handleTransferReceived e
  | .channelStatus raw => handleChannelStatusUpdate raw
  | .makeChannel partner token deposit => handleMakeChannel partner token deposit

end RaidexNode
end Raidex
