import Raidex.CommitmentService.RefundTask
import Raidex.CommitmentService.Errors
import Raidex.RaidexNode.Steps
import Raidex.RaidexNode.TradeTerms

/-!
# Raidex.Protocol.System

Two nodes, the commitment service, and the messages and payments between them.

* `Parties`: the addresses and keys.
* `System`: the state of all parties. What a party has sent stays in its queue.
* `Delivers`: a channel hands over what was sent, sooner or later, once, again or never.
* `step`: a step of one party; which one comes next is the input.
-/

namespace Raidex
namespace Protocol

open CommitmentService (Envelope Refund RefundTask Service ServiceEvent ServiceInput
  TransferReceipt serviceStep)
open RaidexNode (App PaymentReceivedEvent TokenPair TraderEvent TransportEvent commitmentMsg
  provenOfferMsg)

/-- The node that makes an offer, and the node that takes it. -/
inductive Side where
  | maker
  | taker
  deriving DecidableEq

def Side.other : Side → Side
  | .maker => .taker
  | .taker => .maker

/-- Who takes part. Signing raises nothing, and the signer can be recovered. -/
structure Parties where
  crypto : Crypto
  market : TokenPair
  service : Address
  maker : Address
  taker : Address
  sign : Address → Hash → Signature
  refundTask : RefundTask
  distinct : maker ≠ taker
  recovers : ∀ a h, crypto.recover (sign a h) h = some a

structure System where
  maker : App
  taker : App
  service : Service

def System.node (g : System) : Side → App
  | .maker => g.maker
  | .taker => g.taker

def System.setNode (g : System) (a : App) : Side → System
  | .maker => { g with maker := a }
  | .taker => { g with taker := a }

/-- What the transport of a node has sent. -/
def System.sent {M : Type} (g : System) (side : Side) (message : TransportEvent → Option M) :
    List M :=
  (g.node side).transportEvents.filterMap message

/-- The offers that the service has broadcast as taken. -/
def System.offersTaken (g : System) : List Nat :=
  g.service.messageQueue.filterMap fun
    | (.offerTaken m, none) => some m.offerId
    | _ => none

namespace Parties

variable (P : Parties)

def address : Side → Address
  | .maker => P.maker
  | .taker => P.taker

def init : System where
  maker := .init P.market P.service
  taker := .init P.market P.service
  service := .init

def signature {M : Type} [Signed M] (a : Address) (m : M) : Option Signature :=
  some (P.sign a (hashWithoutSignature P.crypto m))

/-! ## Messages of the nodes -/

section

variable (g : System) (side : Side)

def commitments : List Commitment :=
  g.sent side fun
    | .commitment target r commitmentAmount => do
      let o ← (g.node side).node.offers[r]?
      let c ← commitmentMsg P.crypto o.toBasicOffer commitmentAmount (g.node side).node.market
      if target = P.service then
        return { c with signature := P.signature (P.address side) c }
      else none
    | _ => none

/-- The proven offers on a topic; those without one are broadcast. -/
def provenOffers (topic : Option Address) : List ProvenOffer :=
  g.sent side fun
    | .sendProvenOffer r target => do
      let o ← (g.node side).node.offers[r]?
      let proof ← o.proof
      if target = topic then
        provenOfferMsg P.crypto (P.sign (P.address side)) o.toBasicOffer proof
          (g.node side).node.market
      else none
    | _ => none

def swapExecutions : List SwapExecution :=
  g.sent side fun
    | .sendExecuted target offerId timestamp =>
      let e : SwapExecution := { offerId := offerId, timestamp := timestamp, signature := none }
      if target = P.service then some { e with signature := P.signature (P.address side) e }
      else none
    | _ => none

def cancellations : List Cancellation :=
  g.sent side fun
    | .cancellation target offerId =>
      let m : Cancellation := { offerId := offerId, signature := none }
      if target = P.service then some { m with signature := P.signature (P.address side) m }
      else none
    | _ => none

/-! ## Messages of the service -/

/-- The message of an envelope, signed by `MessageSenderTask`, where it is a commitment proof
on the topic of the node. -/
def commitmentProofs : List CommitmentProof :=
  g.service.messageQueue.filterMap fun
    | (.commitmentProof p, topic) =>
      if topic = some (P.address side) then some { p with signature := P.signature P.service p }
      else none
    | _ => none

def cancellationProofs : List CancellationProof :=
  g.service.messageQueue.filterMap fun
    | (.cancellationProof p, topic) =>
      if topic = some (P.address side) then some { p with signature := P.signature P.service p }
      else none
    | _ => none

/-! ## Payments -/

/-- The payments to a node: for the matches of the other node, and refunds of the service. -/
def payments : List PaymentReceivedEvent :=
  ((g.node side.other).traderEvents.filterMap fun
    | .swapInit m => do
      let r ← m.offer
      let o ← (g.node side.other).node.offers[r]?
      if m.target = P.address side then
        return { initiator := P.address side.other, amount := m.getSendAmount o,
                 identifier := o.offerId }
      else none
    | _ => none) ++
  g.service.refundQueue.filterMap fun r =>
    if r.receipt.initiator = P.address side then
      some { initiator := P.service, amount := .int (P.refundTask.transferArgs r).request.amount,
             identifier := r.receipt.identifier }
    else none

/-- A node has made this transfer to the service. -/
def Transferred (r : TransferReceipt) : Prop :=
  r.initiator = P.address side ∧
    TraderEvent.transfer P.service r.amount r.identifier ∈ (g.node side).traderEvents

instance (r : TransferReceipt) : Decidable (P.Transferred g side r) :=
  inferInstanceAs (Decidable (_ ∧ _))

end

end Parties

/-! ## Steps -/

inductive Input where
  | node (side : Side) (i : App.Input)
  /-- The `OfferTakenTask` of a node gets the broadcast. -/
  | offerTaken (side : Side) (offerId : Nat)
  | service (i : ServiceInput)

/-- What goes from party to party was sent. The rest comes from outside: the clocks and timers,
the calls of the API, the statuses of channels. -/
def Delivers (P : Parties) (g : System) : Input → Prop
  | .node side (.commitmentProof p) => p ∈ P.commitmentProofs g side
  | .node side (.cancellationProof p) => p ∈ P.cancellationProofs g side
  | .node _ (.broadcast m) => m ∈ P.provenOffers g .maker none ++ P.provenOffers g .taker none
  | .node side (.provenOffer m) => m ∈ P.provenOffers g side.other (some (P.address side))
  | .node side (.payment p) => p ∈ P.payments g side
  | .node .. => True
  | .offerTaken _ offerId => offerId ∈ g.offersTaken
  | .service i =>
    match i.event with
    | .commitment _ c => c ∈ P.commitments g .maker ++ P.commitments g .taker
    | .transferReceipt r => P.Transferred g .maker r ∨ P.Transferred g .taker r
    | .swapExecution e => e ∈ P.swapExecutions g .maker ++ P.swapExecutions g .taker
    | .cancellation m => m ∈ P.cancellations g .maker ++ P.cancellations g .taker
    | .timer _ => True

instance (P : Parties) (g : System) (i : Input) : Decidable (Delivers P g i) :=
  match i with
  | .node _ (.commitmentProof _) | .node _ (.cancellationProof _) | .node _ (.broadcast _)
  | .node _ (.provenOffer _) | .node _ (.payment _) | .offerTaken .. =>
    inferInstanceAs (Decidable (_ ∈ _))
  | .node _ (.postLimitOrder ..) | .node _ (.deleteLimitOrder _) | .node _ (.makeChannel ..)
  | .node _ (.channelStatus _) | .node _ (.timer _) | .node _ .startListener
  | .node _ (.handle _) | .node _ (.serveCommitmentService _) | .node _ .serveRaidenListener =>
    .isTrue trivial
  | .service { now := _, event := .commitment .. }
  | .service { now := _, event := .swapExecution _ }
  | .service { now := _, event := .cancellation _ } => inferInstanceAs (Decidable (_ ∈ _))
  | .service { now := _, event := .transferReceipt _ } => inferInstanceAs (Decidable (_ ∨ _))
  | .service { now := _, event := .timer _ } => .isTrue trivial

/-- The `OfferTakenTask` takes the offer out of the book. -/
def processOfferTaken (a : App) (offerId : Nat) : App :=
  if a.node.offerBook.contains offerId then
    match a.node.offerBook.removeOffer offerId with
    | .ok book => { a with node := { a.node with offerBook := book } }
    | .error _ => a
  else a

def step (P : Parties) (g : System) : Input → System
  | .node side i => g.setNode ((g.node side).step P.crypto i) side
  | .offerTaken side offerId => g.setNode (processOfferTaken (g.node side) offerId) side
  | .service i => { g with service := serviceStep P.crypto g.service i }

def run (P : Parties) (is : List Input) : System := LTS.run (step P) P.init is

end Protocol
end Raidex
