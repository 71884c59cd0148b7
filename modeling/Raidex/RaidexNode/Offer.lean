import Raidex.Lib.Fsm
import Raidex.Lib.Outcome
import Raidex.Messages
import Raidex.Number

/-!
# Raidex.RaidexNode.Offer

Offers of a node, their matches and their state machine.

An offer is an object that the offer manager, the orders, the matches and the queued events of
the node refer to; an `OfferRef` is its place among all offer objects of the node. A trigger of
its machine is an `EStateM` program over the offer and the events its callbacks dispatch.
-/

namespace Raidex
namespace RaidexNode

inductive TraderRole where
  | maker
  | taker
  deriving DecidableEq, Repr

inductive OfferType where
  | buy
  | sell
  deriving DecidableEq, Repr

/-- The states of `OFFER_STATES` and their children. -/
inductive OfferState where
  | open_
  | openCreated
  | openUnproved
  | openProved
  | openPublished
  | openCancellationRequested
  | pending
  | pendingExchanging
  | pendingWaitForRefund
  | completed
  | canceled
  deriving DecidableEq, Repr

def OfferState.parent : OfferState → Option OfferState
  | .openCreated | .openUnproved | .openProved | .openPublished | .openCancellationRequested =>
    some .open_
  | .pendingExchanging | .pendingWaitForRefund => some .pending
  | _ => none

/-- `status`: the parent of the state, or the state where it has none. -/
def OfferState.status (s : OfferState) : OfferState := s.parent.getD s

/-- The amounts of an offer from a message are integers. -/
structure BasicOffer (Amount : Type) where
  offerId : Nat
  type : OfferType
  baseAmount : Amount
  quoteAmount : Amount
  timeoutDate : Nat
  deriving DecidableEq

def BasicOffer.price (o : BasicOffer Nat) : Except PyError Double :=
  quotient o.quoteAmount o.baseAmount

/-- An offer has triggers and a state once it is a model of the machine. -/
structure Offer extends BasicOffer Number where
  traderRole : TraderRole
  proof : Option CommitmentProof
  isModel : Bool
  state : OfferState
  deriving DecidableEq

/-- `__eq__` -/
def BasicOffer.equals (o o' : BasicOffer Number) : Bool :=
  o.offerId = o'.offerId && o.type = o'.type && Number.equals o.baseAmount o'.baseAmount &&
    Number.equals o.quoteAmount o'.quoteAmount && o.timeoutDate = o'.timeoutDate

def Offer.isBuy (o : Offer) : Bool := o.type = .buy

def Offer.isSell (o : Offer) : Bool := !o.isBuy

abbrev OfferRef := Nat

/-- A model starts in the initial child of `open`. -/
def Offer.new (o : BasicOffer Number) (traderRole : TraderRole) (isModel : Bool) : Offer where
  toBasicOffer := o
  traderRole := traderRole
  proof := none
  isModel := isModel
  state := .openCreated

/-- The offer of a match is `None` when a taker calls for an offer the node does not have. -/
structure Match where
  offer : Option OfferRef
  traderRole : TraderRole
  target : Address
  commitmentProof : CommitmentProof
  deriving DecidableEq

def Match.isMaker (m : Match) : Bool := m.traderRole = .maker

def Match.isTaker (m : Match) : Bool := !m.isMaker

def Match.getSecret (m : Match) : Hash := m.commitmentProof.secret

def Match.getSecretHash (m : Match) : Hash := m.commitmentProof.secretHash

/-- `get_send_amount`, of a match whose offer is `o`. -/
def Match.getSendAmount (m : Match) (o : Offer) : Number :=
  if m.isMaker && o.isBuy || m.isTaker && o.isSell then o.quoteAmount else o.baseAmount

structure PaymentReceivedEvent where
  initiator : Address
  amount : Number
  identifier : Nat
  deriving DecidableEq

/-! ## Events, by the consumer that takes them -/

inductive CommitmentServiceEvent where
  | commit (offer : OfferRef)
  | commitmentProved (offer : OfferRef)
  | receivedInbound (offer : OfferRef) (raidenEvent : PaymentReceivedEvent)
  | cancellationRequest (offer : OfferRef)
  deriving DecidableEq

inductive TraderEvent where
  | transfer (target : Address) (amount identifier : Nat)
  | swapInit (m : Match)
  | makeChannel (partnerAddress tokenAddress : String) (totalDeposit : Number)
  deriving DecidableEq

inductive RaidenListenerEvent where
  | expectInbound (initiator : Address) (identifier : Nat)
  | channelFilter
  | paymentReceived (event : PaymentReceivedEvent)
  | channelStatus (channelData : String)
  deriving DecidableEq

/-- A `ProvenOffer` without a target is a broadcast. -/
inductive TransportEvent where
  | sendProvenOffer (offer : OfferRef) (target : Option Address)
  | commitment (target : Address) (offer : OfferRef) (commitmentAmount : Nat)
  | cancellation (target : Address) (offerId : Nat)
  | sendExecuted (target : Address) (offerId timestamp : Nat)
  deriving DecidableEq

inductive Event where
  | commitmentService (e : CommitmentServiceEvent)
  | trader (e : TraderEvent)
  | raidenListener (e : RaidenListenerEvent)
  | transport (e : TransportEvent)
  deriving DecidableEq

/-! ## The state machine -/

inductive OfferTrigger where
  | initiating
  | paymentFailed
  | timeout
  | receiveCancellationProof
  | receiveCommitmentProof
  | receivedOffer
  | foundMatch
  | receivedInbound
  deriving DecidableEq, Repr

/-- The keyword arguments of a trigger. -/
structure OfferKwargs where
  proof : Option CommitmentProof := none
  raidenEvent : Option PaymentReceivedEvent := none

structure OfferRun where
  offer : Offer
  out : List Event

abbrev OfferM := EStateM PyError OfferRun

abbrev OfferEvent := Fsm.EventData OfferState OfferKwargs

def dispatchFromOffer (e : Event) : OfferM Unit := modify fun x => { x with out := x.out ++ [e] }

/-- Only the keyword `proof` sets the proof. -/
def setProof (ev : OfferEvent) : OfferM Unit :=
  match ev.args.proof with
  | none => pure ()
  | some p => modify fun x => { x with offer := { x.offer with proof := some p } }

def onEnterUnproved (r : OfferRef) (_ : OfferEvent) : OfferM Unit :=
  dispatchFromOffer (.commitmentService (.commit r))

def onEnterPublished (r : OfferRef) (_ : OfferEvent) : OfferM Unit :=
  dispatchFromOffer (.commitmentService (.commitmentProved r))

def initiateRefund (r : OfferRef) (ev : OfferEvent) : OfferM Unit :=
  match ev.args.raidenEvent with
  | none => throw .keyError
  | some e => dispatchFromOffer (.commitmentService (.receivedInbound r e))

def onEnterCancellation (r : OfferRef) (_ : OfferEvent) : OfferM Unit :=
  dispatchFromOffer (.commitmentService (.cancellationRequest r))

abbrev OfferTransition := Fsm.Transition OfferState OfferTrigger OfferKwargs PyError OfferRun

/-- The `TRANSITIONS` of the source. -/
def offerTransitions : List OfferTransition :=
  [{ trigger := .initiating, source := .openCreated, dest := .openUnproved },
   { trigger := .paymentFailed, source := .openUnproved, dest := .openUnproved },
   { trigger := .timeout, source := .open_, dest := .openCancellationRequested },
   { trigger := .receiveCancellationProof, source := .open_, dest := .canceled },
   { trigger := .receiveCommitmentProof, source := .openUnproved, dest := .openProved },
   { trigger := .receivedOffer, source := .openProved, dest := .openPublished },
   { trigger := .foundMatch, source := .openPublished, dest := .pendingExchanging },
   { trigger := .foundMatch, source := .openProved, dest := .pendingExchanging },
   { trigger := .receivedInbound, source := .pendingExchanging, dest := .pendingWaitForRefund },
   { trigger := .receivedInbound, source := .pendingWaitForRefund, dest := .completed }]

/-- The machine of the offer at `r`. The callback after a state change only logs. -/
def offerMachine (r : OfferRef) :
    Fsm.Machine OfferState OfferTrigger OfferKwargs PyError OfferRun where
  state x := x.offer.state
  setState s x := { x with offer := { x.offer with state := s } }
  ancestors s := s.parent.toList
  onEnter
    | .openUnproved => [onEnterUnproved r]
    | .openProved => [setProof]
    | .openPublished => [onEnterPublished r]
    | .openCancellationRequested => [onEnterCancellation r]
    | .pendingWaitForRefund => [initiateRefund r]
    | _ => []
  transitions := offerTransitions
  machineError := .machineError

/-! ## What a trigger does -/

/-- Where a trigger takes an offer; `none` where it raises. -/
def OfferTrigger.dest (t : OfferTrigger) (s : OfferState) : Option OfferState :=
  match t, s with
  | .initiating, .openCreated => some .openUnproved
  | .paymentFailed, .openUnproved => some .openUnproved
  | .timeout, s => if s.status = .open_ then some .openCancellationRequested else none
  | .receiveCancellationProof, s => if s.status = .open_ then some .canceled else none
  | .receiveCommitmentProof, .openUnproved => some .openProved
  | .receivedOffer, .openProved => some .openPublished
  | .foundMatch, .openPublished => some .pendingExchanging
  | .foundMatch, .openProved => some .pendingExchanging
  | .receivedInbound, .pendingExchanging => some .pendingWaitForRefund
  | .receivedInbound, .pendingWaitForRefund => some .completed
  | _, _ => none

def Offer.enter (o : Offer) (s : OfferState) (kwargs : OfferKwargs) : Offer :=
  { o with state := s
           proof := if s = .openProved then kwargs.proof.or o.proof else o.proof }

/-- The events dispatched on entering a state. -/
def entryEvents (r : OfferRef) (s : OfferState) (kwargs : OfferKwargs) : List Event :=
  match s with
  | .openUnproved => [.commitmentService (.commit r)]
  | .openPublished => [.commitmentService (.commitmentProved r)]
  | .openCancellationRequested => [.commitmentService (.cancellationRequest r)]
  | .pendingWaitForRefund =>
    kwargs.raidenEvent.toList.map fun e => .commitmentService (.receivedInbound r e)
  | _ => []

theorem offerMachine_undeclared {r : OfferRef} {t : OfferTrigger} {kwargs : OfferKwargs}
    {x : OfferRun} (h : t.dest x.offer.state = none) :
    ((offerMachine r).trigger t kwargs).run x = .error .machineError x := by
  obtain ⟨⟨o, role, proof, model, s⟩, out⟩ := x
  cases t <;> cases s <;> first | rfl | cases h

/-- `received_inbound` comes with the payment it is about. -/
theorem offerMachine_run {r : OfferRef} {t : OfferTrigger} {kwargs : OfferKwargs} {x : OfferRun}
    {s : OfferState} (h : t.dest x.offer.state = some s)
    (hkwargs : t = .receivedInbound → kwargs.raidenEvent.isSome) :
    ((offerMachine r).trigger t kwargs).run x =
      .ok true { offer := x.offer.enter s kwargs, out := x.out ++ entryEvents r s kwargs } := by
  obtain ⟨⟨o, role, proof, model, s₀⟩, out⟩ := x
  obtain ⟨p, e⟩ := kwargs
  cases t <;> cases s₀ <;> cases h
  case receiveCommitmentProof.openUnproved =>
    cases p <;> (simp only [entryEvents, List.append_nil]; rfl)
  case receivedInbound.pendingExchanging =>
    obtain ⟨e, rfl⟩ := Option.isSome_iff_exists.mp (hkwargs rfl)
    rfl
  all_goals (simp only [entryEvents, List.append_nil]; rfl)

end RaidexNode
end Raidex
