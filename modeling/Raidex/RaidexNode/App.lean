import Raidex.Lib.Run
import Raidex.RaidexNode.Handlers

/-!
# Raidex.RaidexNode.App

The `App` of a node: the consumers and their queues, the listeners, the pollers and the API.

Each consumer handles one event of its queue at a time. The consumer of the node stops for good
when `handle_state_change` raises. What the trader and the transport are given to do stays in
their queues. Which step comes next, and what messages, payments and API calls there are, is the
input of a run.
-/

namespace Raidex
namespace RaidexNode

def commitmentAmount : Nat := 10 ^ 18

/-- A `TransferReceivedFilter` or a `ChannelFilter`. -/
inductive EventFilter where
  | transferReceived (initiator : Address) (identifier : Nat)
  | channel
  deriving DecidableEq

structure App where
  commitmentServiceAddress : Address
  node : Node
  running : Bool
  stateChanges : List StateChange
  commitmentServiceEvents : List CommitmentServiceEvent
  raidenListenerEvents : List RaidenListenerEvent
  traderEvents : List TraderEvent
  transportEvents : List TransportEvent
  eventFilters : List EventFilter
  /-- The payments that the poller has dispatched. -/
  raidenEvents : List (Address × Nat)
  /-- The offers whose `wait_for_taker` is spawned, and those whose `TakerListener` is started. -/
  spawned : List Nat
  listening : List Nat

/-- The initiators and identifiers of payments. -/
instance : LawfulBEq (Address × Nat) := inferInstance

/-- After `start`, which asks for the channels. -/
def App.init (market : TokenPair) (commitmentServiceAddress : Address) : App where
  commitmentServiceAddress := commitmentServiceAddress
  node := .init market
  running := true
  stateChanges := []
  commitmentServiceEvents := []
  raidenListenerEvents := [.channelFilter]
  traderEvents := []
  transportEvents := []
  eventFilters := []
  raidenEvents := []
  spawned := []
  listening := []

def Event.toCommitmentService? : Event → Option CommitmentServiceEvent
  | .commitmentService e => some e
  | _ => none

def Event.toRaidenListener? : Event → Option RaidenListenerEvent
  | .raidenListener e => some e
  | _ => none

def Event.toTrader? : Event → Option TraderEvent
  | .trader e => some e
  | _ => none

def Event.toTransport? : Event → Option TransportEvent
  | .transport e => some e
  | _ => none

namespace App

/-- `dispatch_events`: every event goes to the queue of its consumer. -/
def dispatch (a : App) (es : List Event) : App :=
  { a with
    commitmentServiceEvents := a.commitmentServiceEvents ++ es.filterMap Event.toCommitmentService?
    raidenListenerEvents := a.raidenListenerEvents ++ es.filterMap Event.toRaidenListener?
    traderEvents := a.traderEvents ++ es.filterMap Event.toTrader?
    transportEvents := a.transportEvents ++ es.filterMap Event.toTransport? }

/-- `dispatch_state_changes` -/
def enqueue (a : App) (scs : List StateChange) : App :=
  { a with stateChanges := a.stateChanges ++ scs }

/-! ## The consumers -/

/-- The consumer of the node takes a state change. -/
def handle (env : Env) (a : App) : App :=
  match a.running, a.stateChanges with
  | true, sc :: rest =>
    let result := (handleStateChange env sc).run a.node
    { a with node := result.state, running := result.returned, stateChanges := rest }.dispatch
      (result.state.events.drop a.node.events.length)
  | _, _ => a

/-- `handle_event` of the client of the commitment service. -/
def handleCommitmentServiceEvent (now : Nat) (a : App) : CommitmentServiceEvent → App
  | .commit r =>
    match a.node.offers[r]? with
    | none => a
    | some o => a.dispatch
      [.transport (.commitment a.commitmentServiceAddress r commitmentAmount),
       .trader (.transfer a.commitmentServiceAddress commitmentAmount o.offerId)]
  | .commitmentProved r =>
    match a.node.offers[r]? with
    | none => a
    | some o => { a with spawned := a.spawned ++ [o.offerId] }
  | .receivedInbound r _ =>
    match a.node.offers[r]? with
    | none => a
    | some o => a.dispatch
      [.transport (.sendExecuted a.commitmentServiceAddress o.offerId now),
       .raidenListener (.expectInbound a.commitmentServiceAddress o.offerId)]
  | .cancellationRequest r =>
    match a.node.offers[r]? with
    | none => a
    | some o => a.dispatch [.transport (.cancellation a.commitmentServiceAddress o.offerId)]

def serveCommitmentService (now : Nat) (a : App) : App :=
  match a.commitmentServiceEvents with
  | [] => a
  | e :: rest => handleCommitmentServiceEvent now { a with commitmentServiceEvents := rest } e

end App

/-- `process` of a filter -/
def EventFilter.process (e : RaidenListenerEvent) : EventFilter → Option StateChange
  | .transferReceived initiator identifier =>
    match e with
    | .paymentReceived p =>
      if p.initiator = initiator && p.identifier = identifier then some (.transferReceived p)
      else none
    | _ => none
  | .channel =>
    match e with
    | .channelStatus channelData => some (.channelStatus channelData)
    | _ => none

namespace App

/-- `new_raiden_event`: every filter that takes the event is used up. -/
def newRaidenEvent (a : App) (e : RaidenListenerEvent) : App :=
  { a with eventFilters := a.eventFilters.filter fun f => (EventFilter.process e f).isNone }.enqueue
    (a.eventFilters.filterMap (EventFilter.process e))

def addEventFilter (a : App) (f : EventFilter) : App :=
  { a with eventFilters := a.eventFilters ++ [f] }

/-- The consumer of the raiden listener takes an event. -/
def serveRaidenListener (a : App) : App :=
  match a.raidenListenerEvents with
  | [] => a
  | e :: rest =>
    let a := { a with raidenListenerEvents := rest }
    match e with
    | .expectInbound initiator identifier =>
      a.addEventFilter (.transferReceived initiator identifier)
    | .channelFilter => a.addEventFilter .channel
    | .paymentReceived _ | .channelStatus _ => a.newRaidenEvent e

/-! ## Listeners, pollers and the API -/

end App

def TokenPair.getOfferType (market : TokenPair) (askToken bidToken : Address) : Option OfferType :=
  if askToken = market.baseToken && bidToken = market.quoteToken then some .buy
  else if askToken = market.quoteToken && bidToken = market.baseToken then some .sell
  else none

/-- `_transform` of the `OfferListener`; it raises on another market and on a sender that cannot
be recovered. -/
def ProvenOffer.toEntry (C : Crypto) (market : TokenPair) (m : ProvenOffer) :
    Option OfferBookEntry :=
  match market.getOfferType m.offer.askToken m.offer.bidToken, sender C m with
  | some type, .ok initiator =>
    let (baseAmount, quoteAmount) := match type with
      | .buy => (m.offer.askAmount, m.offer.bidAmount)
      | .sell => (m.offer.bidAmount, m.offer.askAmount)
    some { offer := { offerId := m.offer.offerId, type := type, baseAmount := baseAmount,
                      quoteAmount := quoteAmount, timeoutDate := m.offer.timeout }
           initiator := initiator
           commitmentProof := m.commitmentProof }
  | _, _ => none

namespace App

variable (C : Crypto)

/-- The `OfferListener` gets a broadcast. -/
def receiveBroadcast (m : ProvenOffer) (a : App) : App :=
  match ProvenOffer.toEntry C a.node.market m with
  | none => a
  | some e => a.enqueue [.offerPublished e]

/-- The `TakerListener`s of the offer get a message on the topic of the node. Each waits for one
message only. -/
def receiveProvenOffer (m : ProvenOffer) (a : App) : App :=
  let b := { a with listening := a.listening.filter (· ≠ m.offer.offerId) }
  match sender C m with
  | .error _ => b
  | .ok initiator => b.enqueue ((a.listening.filter (· = m.offer.offerId)).map fun offerId =>
      .takerCall offerId initiator m.commitmentProof)

def startListener (a : App) : App :=
  match a.spawned with
  | [] => a
  | offerId :: rest => { a with spawned := rest, listening := a.listening ++ [offerId] }

/-- The poller dispatches the first payment with an initiator and an identifier. -/
def poll (p : PaymentReceivedEvent) (a : App) : App :=
  if (p.initiator, p.identifier) ∈ a.raidenEvents then a
  else { a with raidenEvents := a.raidenEvents ++ [(p.initiator, p.identifier)] }.dispatch
    [.raidenListener (.paymentReceived p)]

/-- The timer of an offer fires, if it is alive. -/
def fireTimer (offerId : Nat) (a : App) : App :=
  match a.node.timeoutGreenlets.lookup offerId with
  | none => a
  | some t =>
    if t.dead then a
    else { a with node := { a.node with timeoutGreenlets := a.node.timeoutGreenlets.insert offerId
                                          { t with dead := true } } }.enqueue
      [.offerTimeout offerId t.timeoutDate]

/-- `LimitOrders.post` and `handle_new_limit_order`: the amount and the price are not `<= 0`. -/
def postLimitOrder (uuid : Nat) (orderType : String) (amount : Number) (price : Double)
    (a : App) : App :=
  if orderType ∉ ["BUY", "SELL"] || amount.le (.int 0) || (Number.float price).le (.int 0) then a
  else a.enqueue [.newLimitOrder { orderId := some (createRandom32BytesId uuid),
                                   orderType := orderType, amount := amount, price := price,
                                   lifetime := none }]

/-- An order is open as long as one of its offers is. -/
def orderOpen (a : App) (order : LimitOrder) : Bool :=
  order.correspondingOffers.any fun x =>
    a.node.offers[x.2]?.any fun o => o.isModel && o.state.status = .open_

/-- `LimitOrders.delete` and `handle_cancel_limit_order` -/
def deleteLimitOrder (orderId : Nat) (a : App) : App :=
  match a.node.orders.lookup orderId with
  | none => a
  | some order => if a.orderOpen order then a.enqueue [.cancelLimitOrder orderId] else a

/-! ## Runs -/

inductive Input where
  | postLimitOrder (uuid : Nat) (orderType : String) (amount : Number) (price : Double)
  | deleteLimitOrder (orderId : Nat)
  | makeChannel (partnerAddress tokenAddress : String) (totalDeposit : Number)
  | commitmentProof (m : CommitmentProof)
  | cancellationProof (m : CancellationProof)
  | broadcast (m : ProvenOffer)
  | provenOffer (m : ProvenOffer)
  | payment (p : PaymentReceivedEvent)
  | channelStatus (channelData : String)
  | timer (offerId : Nat)
  | startListener
  | handle (env : Env)
  | serveCommitmentService (now : Nat)
  | serveRaidenListener

def step (a : App) : Input → App
  | .postLimitOrder uuid orderType amount price => a.postLimitOrder uuid orderType amount price
  | .deleteLimitOrder orderId => a.deleteLimitOrder orderId
  | .makeChannel partner token deposit => a.enqueue [.makeChannel partner token deposit]
  | .commitmentProof m => a.enqueue [.commitmentProof m]
  | .cancellationProof m => a.enqueue [.cancellationProof m]
  | .broadcast m => a.receiveBroadcast C m
  | .provenOffer m => a.receiveProvenOffer C m
  | .payment p => a.poll p
  | .channelStatus channelData => a.dispatch [.raidenListener (.channelStatus channelData)]
  | .timer offerId => a.fireTimer offerId
  | .startListener => a.startListener
  | .handle env => a.handle env
  | .serveCommitmentService now => a.serveCommitmentService now
  | .serveRaidenListener => a.serveRaidenListener

/-- The `App` after some inputs, in order. -/
def run (market : TokenPair) (commitmentServiceAddress : Address) (is : List Input) : App :=
  LTS.run (step C) (.init market commitmentServiceAddress) is

end App

end RaidexNode
end Raidex
