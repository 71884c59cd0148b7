import Raidex.RaidexNode.OfferBook

/-!
# Raidex.RaidexNode.DataManager

The state of a node and the methods of its `DataManager`: offer objects, offer manager, offer
book, orders, matches and timers.

An offer object is named by its place in `offers`. `events` lists everything the node has
dispatched, in order. The clock and the random ids come from `Env`.
-/

namespace Raidex
namespace RaidexNode

structure TokenPair where
  baseToken : Address
  quoteToken : Address

/-- A greenlet that dispatches an `OfferTimeoutStateChange` after its lifetime, and is dead then.
One that is killed leaves the dictionary of greenlets. -/
structure Timer where
  timeoutDate : Nat
  lifetime : Int
  dead : Bool
  deriving DecidableEq

structure LimitOrder where
  orderId : Nat
  orderType : OfferType
  amount : Number
  price : Double
  lifetime : Nat
  correspondingOffers : List (Nat × OfferRef)
  deriving DecidableEq

structure Node where
  market : TokenPair
  offers : List Offer
  models : List OfferRef
  offerManager : Dict Nat OfferRef
  offerBook : OfferBook
  orders : Dict Nat LimitOrder
  matchesById : Dict Nat Match
  timeoutGreenlets : Dict Nat Timer
  channels : String
  events : List Event

def Node.init (market : TokenPair) : Node where
  market := market
  offers := []
  models := []
  offerManager := ∅
  offerBook := .empty
  orders := ∅
  matchesById := ∅
  timeoutGreenlets := ∅
  channels := ""
  events := []

abbrev NodeM := EStateM PyError Node

/-- What a handler reads from its environment: the clock and random numbers. -/
structure Env where
  now : Nat
  orderUuid : Nat
  offerUuid : Nat

def createRandom32BytesId (uuid : Nat) : Nat := uuid % (2 ^ 32 - 1)

def dispatchEvents (es : List Event) : NodeM Unit :=
  modify fun s => { s with events := s.events ++ es }

/-! ## Offers -/

def readOffer (r : OfferRef) : NodeM Offer := do
  match (← get).offers[r]? with
  | none => throw .attributeError
  | some o => return o

/-- The machine does not add a model that equals one it has. -/
def Node.hasEqualModel (s : Node) (o : BasicOffer Number) : Bool :=
  s.models.any fun r => s.offers[r]?.any fun o' => o'.toBasicOffer.equals o

/-- The place of the next offer object. -/
def Node.nextOffer (s : Node) : OfferRef := s.offers.length

def createModel (o : BasicOffer Number) (traderRole : TraderRole) : NodeM OfferRef := do
  let s ← get
  let isModel := !s.hasEqualModel o
  set { s with offers := s.offers ++ [Offer.new o traderRole isModel]
               models := if isModel then s.models ++ [s.nextOffer] else s.models }
  return s.nextOffer

/-- The first model that is the offer at `r`, or equals it. -/
def Node.findModel (s : Node) (r : OfferRef) (o : Offer) : Option OfferRef :=
  s.models.find? fun r' =>
    r' = r || s.offers[r']?.any fun o' => o'.toBasicOffer.equals o.toBasicOffer

def removeModel (r : OfferRef) (o : Offer) : NodeM Unit := do
  match (← get).findModel r o with
  | none => throw .valueError
  | some r' => modify fun s => { s with models := s.models.erase r' }

/-- Fire a trigger of the offer at `r`; it has none if it is not a model. -/
def callOffer (r : OfferRef) (t : OfferTrigger) (kwargs : OfferKwargs) : NodeM Unit := do
  let o ← readOffer r
  if !o.isModel then throw .attributeError
  match ((offerMachine r).trigger t kwargs).run { offer := o, out := [] } with
  | .ok _ x =>
    modify fun s => { s with offers := s.offers.set r x.offer, events := s.events ++ x.out }
  | .error e x => do
    modify fun s => { s with offers := s.offers.set r x.offer, events := s.events ++ x.out }
    throw e

/-! ## OfferManager -/

def Node.hasOffer (s : Node) (offerId : Nat) : Bool := offerId ∈ s.offerManager

def Node.getOffer (s : Node) (offerId : Nat) : Option OfferRef := s.offerManager.lookup offerId

def manageOffer (offerId : Nat) (r : OfferRef) : NodeM Unit :=
  modify fun s => { s with offerManager := s.offerManager.insert offerId r }

def OfferBookEntry.takeOffer (e : OfferBookEntry) : BasicOffer Number where
  offerId := e.offer.offerId
  type := e.offer.type
  baseAmount := .int e.offer.baseAmount
  quoteAmount := .int e.offer.quoteAmount
  timeoutDate := e.offer.timeoutDate

def createTakeOffer (e : OfferBookEntry) : NodeM OfferRef := do
  let r ← createModel e.takeOffer .taker
  manageOffer e.offerId r
  return r

/-- The offer for the rest of a limit order. -/
def LimitOrder.makeOffer (order : LimitOrder) (env : Env) (amountLeft : Number) :
    Except PyError (BasicOffer Number) := do
  let quoteAmount ← (← amountLeft.mulFloat order.price).truncate
  let timeoutDate ← timePlus env.now order.lifetime
  return { offerId := createRandom32BytesId env.offerUuid, type := order.orderType,
           baseAmount := amountLeft, quoteAmount := .int quoteAmount, timeoutDate := timeoutDate }

def createMakeOffer (offer : BasicOffer Number) : NodeM OfferRef := do
  let r ← createModel offer .maker
  manageOffer offer.offerId r
  return r

/-! ## TimeoutHandler -/

def Node.hasGreenlet (s : Node) (offerId : Nat) : Bool := offerId ∈ s.timeoutGreenlets

def Node.isStillAlive (s : Node) (offerId : Nat) : Bool :=
  (s.timeoutGreenlets.lookup offerId).any fun t => !t.dead

/-- `clean_up_timeout` -/
def Node.cleanUpTimeout (s : Node) (offerId : Nat) : Node :=
  { s with timeoutGreenlets := s.timeoutGreenlets.erase offerId }

/-- `future_timeout`, its greenlet kept under the offer id. -/
def Node.startTimeout (s : Node) (offerId timeoutDate : Nat) (lifetime : Int) : Node :=
  { s with timeoutGreenlets := s.timeoutGreenlets.insert offerId
             { timeoutDate := timeoutDate, lifetime := lifetime, dead := false } }

/-- The threshold is in milliseconds. -/
def createNewTimeout (env : Env) (offerId timeoutDate threshold : Nat) : NodeM Bool := do
  let s ← get
  if s.hasGreenlet offerId && !s.isStillAlive offerId then throw .alreadyTimedOut
  modify fun s => s.cleanUpTimeout offerId
  let seconds ← MonadExcept.ofExcept (secondsToTimeout env.now timeoutDate)
  modify fun s => s.startTimeout offerId timeoutDate (seconds - threshold)
  return true

/-! ## Orders -/

/-- `d[key] = value` for a dictionary in its order of insertion. -/
def setItem (key : Nat) (value : OfferRef) : List (Nat × OfferRef) → List (Nat × OfferRef)
  | [] => [(key, value)]
  | x :: rest => if x.1 = key then (key, value) :: rest else x :: setItem key value rest

def Node.updateOrder (s : Node) (orderId : Nat) (f : LimitOrder → LimitOrder) : Node :=
  match s.orders.lookup orderId with
  | none => s
  | some order => { s with orders := s.orders.insert orderId (f order) }

/-- `add_offer` of the order -/
def addOffer (orderId offerId : Nat) (r : OfferRef) : NodeM Unit := do
  modify fun s => s.updateOrder orderId fun order =>
    { order with correspondingOffers := setItem offerId r order.correspondingOffers }
  callOffer r .initiating {}

/-- `get_open_offers` of the order, given its offers; only models have a status. -/
def Node.openOffers (s : Node) : List (Nat × OfferRef) → Except PyError (List OfferRef)
  | [] => return []
  | (_, r) :: rest =>
    match s.offers[r]? with
    | none => throw .attributeError
    | some o =>
      if o.isModel then do
        let others ← s.openOffers rest
        return if o.state.status = .open_ then r :: others else others
      else throw .attributeError

/-! ## Matches -/

def makerMatch (offer : Option OfferRef) (target : Address) (commitmentProof : CommitmentProof) :
    Match where
  offer := offer
  traderRole := .maker
  target := target
  commitmentProof := commitmentProof

def takerMatch (offer : OfferRef) (e : OfferBookEntry) : Match where
  offer := some offer
  traderRole := .taker
  target := e.initiator
  commitmentProof := e.commitmentProof

def setMatch (offerId : Nat) (m : Match) : NodeM Unit :=
  modify fun s => { s with matchesById := s.matchesById.insert offerId m }

/-- `matched` of a match -/
def matched (m : Match) : NodeM Unit := do
  match m.offer with
  | none => throw .attributeError
  | some r =>
    callOffer r .foundMatch {}
    let o ← readOffer r
    dispatchEvents [.trader (.swapInit m), .raidenListener (.expectInbound m.target o.offerId)]

/-- `received_inbound` of a match -/
def receivedInbound (m : Match) (raidenEvent : PaymentReceivedEvent) : NodeM Unit := do
  match m.offer with
  | none => throw .attributeError
  | some r => callOffer r .receivedInbound { raidenEvent := some raidenEvent }

/-! ## DataManager -/

def removeFromBook (offerId : Nat) : NodeM Unit := do
  let book ← MonadExcept.ofExcept ((← get).offerBook.removeOffer offerId)
  modify fun s => { s with offerBook := book }

/-- One matching entry of a limit order. -/
def takeOffer (env : Env) (orderId : Nat) (e : OfferBookEntry) : NodeM Unit := do
  let r ← createTakeOffer e
  if ← createNewTimeout env e.offerId e.offer.timeoutDate 0 then
    setMatch e.offerId (takerMatch r e)
    addOffer orderId e.offerId r
    removeFromBook e.offerId
  else throw .offerTimedOut

def takeOffers (env : Env) (orderId : Nat) : List OfferBookEntry → NodeM Unit
  | [] => pure ()
  | e :: es => do
    takeOffer env orderId e
    takeOffers env orderId es

/-- The rest of a limit order. -/
def offerRest (env : Env) (order : LimitOrder) (amountLeft : Number) : NodeM Unit := do
  let offer ← MonadExcept.ofExcept (order.makeOffer env amountLeft)
  let r ← createMakeOffer offer
  let _ ← createNewTimeout env offer.offerId offer.timeoutDate 0
  addOffer order.orderId offer.offerId r

def processOrder (env : Env) (order : LimitOrder) : NodeM Unit := do
  modify fun s => { s with orders := s.orders.insert order.orderId order }
  let (entries, amountLeft) ← MonadExcept.ofExcept
    (matchLimit (← get).offerBook order.price order.orderType order.amount)
  takeOffers env order.orderId entries
  if amountLeft.positive then offerRest env order amountLeft

/-- `clean_up_timeout` called with an offer: offers define `__eq__` and no `__hash__`, so looking
one up in a dictionary raises. -/
def cleanUpTimeoutOf (_ : OfferRef) : NodeM Unit := throw .typeError

def timeoutOffers : List OfferRef → NodeM Unit
  | [] => pure ()
  | r :: rs => do
    callOffer r .timeout {}
    cleanUpTimeoutOf r
    timeoutOffers rs

def cancelOrder (orderId : Nat) : NodeM Unit := do
  let s ← get
  match s.orders.lookup orderId with
  | none => throw .keyError
  | some order => timeoutOffers (← MonadExcept.ofExcept (s.openOffers order.correspondingOffers))

end RaidexNode
end Raidex
