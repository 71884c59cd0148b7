import Raidex.Lib.Dedup
import Raidex.CommitmentService.Swap
import Raidex.RaidexNode.App

/-!
# Raidex.RaidexNode.Polling

The two pollers of the payments endpoint: `raiden_poll` of a node, and `listen_for_events` of the
trader client, with the listener of the commitment service.

* `raidenPoll_eq`, `listenForEvents_eq`: both hand on the first payment of each initiator and
  identifier.
* `polled_once_iff`: from responses that each extend the one before, both hand on every payment
  once and in order exactly when no two payments have the same initiator and identifier.
-/

namespace Raidex
namespace RaidexNode

open CommitmentService (TransferReceipt)

/-- An event of a response. The initiator of a payment is a checksum address, which stands for the
address itself. -/
structure RawEvent where
  event : String
  initiator : Address
  amount : Nat
  identifier : Nat
  deriving DecidableEq

def PaymentReceivedEvent.identifierTuple (p : PaymentReceivedEvent) : Address × Nat :=
  (p.initiator, p.identifier)

/-! ## The poller of a node -/

/-- `encode` -/
def RawEvent.toPaymentReceived? (e : RawEvent) : Option PaymentReceivedEvent :=
  if e.event = "EventPaymentReceivedSuccess" then
    some { initiator := e.initiator, amount := .int e.amount, identifier := e.identifier }
  else none

/-- The events that the poller remembers, and those it has dispatched. -/
structure RaidenPoll where
  raidenEvents : List (Address × Nat)
  dispatched : List PaymentReceivedEvent

namespace RaidenPoll

def init : RaidenPoll where
  raidenEvents := []
  dispatched := []

def newEvent (s : RaidenPoll) (event : PaymentReceivedEvent) : RaidenPoll :=
  if event.identifierTuple ∈ s.raidenEvents then s
  else { raidenEvents := s.raidenEvents ++ [event.identifierTuple]
         dispatched := s.dispatched ++ [event] }

/-- `request_events`, of one response. -/
def requestEvents (s : RaidenPoll) (response : List RawEvent) : RaidenPoll :=
  (response.filterMap RawEvent.toPaymentReceived?).foldl newEvent s

end RaidenPoll

def raidenPoll (responses : List (List RawEvent)) : RaidenPoll :=
  responses.foldl RaidenPoll.requestEvents .init

/-! ## The poller of the trader client -/

structure EventPaymentReceivedSuccess where
  initiator : Address
  amount : Nat
  identifier : Nat
  deriving DecidableEq

def EventPaymentReceivedSuccess.identifierTuple (e : EventPaymentReceivedSuccess) :
    Address × Nat := (e.initiator, e.identifier)

/-- `encode` -/
def RawEvent.toPaymentSuccess? (e : RawEvent) : Option EventPaymentReceivedSuccess :=
  if e.event = "EventPaymentReceivedSuccess" then
    some { initiator := e.initiator, amount := e.amount, identifier := e.identifier }
  else none

/-- `_transform` of a `TransferReceivedListener` -/
def transferReceived (initiator : Option Address) (now : Nat) (e : EventPaymentReceivedSuccess) :
    Option TransferReceipt :=
  if ∃ a ∈ initiator, e.initiator ≠ a then none
  else some { initiator := e.initiator, amount := e.amount, identifier := e.identifier,
              timestamp := now }

/-- The events that the poller remembers, and what it has put into the queue of the listener. -/
structure EventListener (β : Type) where
  events : List (Address × Nat)
  eventQueue : List β

namespace EventListener

variable {β : Type} (transform : Nat → EventPaymentReceivedSuccess → Option β) (clock : Nat → Nat)

def init : EventListener β where
  events := []
  eventQueue := []

/-- The clock is read once for each new event. -/
def newEvent (s : EventListener β) (event : EventPaymentReceivedSuccess) : EventListener β :=
  if event.identifierTuple ∈ s.events then s
  else { events := s.events ++ [event.identifierTuple]
         eventQueue := s.eventQueue ++ (transform (clock s.events.length) event).toList }

/-- `request_events`, of one response. -/
def requestEvents (s : EventListener β) (response : List RawEvent) : EventListener β :=
  (response.filterMap RawEvent.toPaymentSuccess?).foldl (newEvent transform clock) s

end EventListener

def listenForEvents {β : Type} (transform : Nat → EventPaymentReceivedSuccess → Option β)
    (clock : Nat → Nat) (responses : List (List RawEvent)) : EventListener β :=
  responses.foldl (EventListener.requestEvents transform clock) .init

/-! ## What is handed on -/

open Dedup

/-- The poller of a node dispatches new payments as its `App` does. -/
theorem newEvent_poll (a : App) (p : PaymentReceivedEvent) :
    (a.poll p).raidenEvents = (RaidenPoll.newEvent ⟨a.raidenEvents, []⟩ p).raidenEvents ∧
    (a.poll p).raidenListenerEvents = a.raidenListenerEvents ++
      (RaidenPoll.newEvent ⟨a.raidenEvents, []⟩ p).dispatched.map .paymentReceived := by
  by_cases hp : p.identifierTuple ∈ a.raidenEvents
  · have hsame : a.poll p = a := if_pos hp
    rw [hsame, RaidenPoll.newEvent, if_pos hp]
    exact ⟨rfl, (List.append_nil _).symm⟩
  · have hnew : a.poll p =
        { a with raidenEvents := a.raidenEvents ++ [p.identifierTuple] }.dispatch
          [.raidenListener (.paymentReceived p)] := if_neg hp
    rw [hnew, RaidenPoll.newEvent, if_neg hp]
    exact ⟨rfl, rfl⟩

theorem raidenPoll_scans : Scans PaymentReceivedEvent.identifierTuple RaidenPoll.newEvent
    RaidenPoll.raidenEvents RaidenPoll.dispatched where
  old _ _ h := if_pos h
  new s p h := by
    rw [RaidenPoll.newEvent, if_neg h]
    exact ⟨rfl, rfl⟩

/-- The payment of a receipt. -/
def payment (receipt : TransferReceipt) : EventPaymentReceivedSuccess where
  initiator := receipt.initiator
  amount := receipt.amount
  identifier := receipt.identifier

theorem transferReceived_none (now : Nat) (e : EventPaymentReceivedSuccess) :
    (transferReceived none now e).toList.map payment = [e] := by
  have hreceipt : transferReceived none now e =
      some { initiator := e.initiator, amount := e.amount, identifier := e.identifier,
             timestamp := now } := if_neg (by simp)
  rw [hreceipt]
  rfl

theorem eventListener_scans (clock : Nat → Nat) :
    Scans EventPaymentReceivedSuccess.identifierTuple
      (EventListener.newEvent (transferReceived none) clock) EventListener.events
      fun s => s.eventQueue.map payment where
  old _ _ h := if_pos h
  new s e h := by
    rw [EventListener.newEvent, if_neg h, List.map_append, transferReceived_none]
    exact ⟨rfl, rfl⟩

/-- What the payments endpoint has told of at last. -/
def history (responses : List (List RawEvent)) : List RawEvent := responses.getLast?.getD []

section

variable {responses : List (List RawEvent)}

theorem history_filterMap {α : Type} (f : RawEvent → Option α) :
    (responses.map (List.filterMap f)).getLast?.getD [] = (history responses).filterMap f := by
  unfold history
  rw [List.getLast?_map]
  cases responses.getLast? <;> rfl

theorem isChain_filterMap {α : Type} (f : RawEvent → Option α)
    (h : responses.IsChain (· <+: ·)) : (responses.map (List.filterMap f)).IsChain (· <+: ·) :=
  (List.isChain_map _).mpr (h.imp fun _ _ hpre => hpre.filterMap f)

theorem raidenPoll_eq (h : responses.IsChain (· <+: ·)) : (raidenPoll responses).dispatched =
    firsts PaymentReceivedEvent.identifierTuple []
      ((history responses).filterMap RawEvent.toPaymentReceived?) := by
  have hrun := raidenPoll_scans.foldl_eq (s := .init) rfl rfl
    (List.filterMap RawEvent.toPaymentReceived?) responses
  rw [← history_filterMap, ← foldl_deliver (isChain_filterMap _ h)]
  exact hrun

theorem listenForEvents_eq (clock : Nat → Nat) (h : responses.IsChain (· <+: ·)) :
    (listenForEvents (transferReceived none) clock responses).eventQueue.map payment =
    firsts EventPaymentReceivedSuccess.identifierTuple []
      ((history responses).filterMap RawEvent.toPaymentSuccess?) := by
  have hrun := (eventListener_scans clock).foldl_eq (s := .init) rfl rfl
    (List.filterMap RawEvent.toPaymentSuccess?) responses
  rw [← history_filterMap, ← foldl_deliver (isChain_filterMap _ h)]
  exact hrun

end

/-- Both pollers read the same identifier tuples. -/
theorem map_identifierTuple (es : List RawEvent) :
    (es.filterMap RawEvent.toPaymentReceived?).map PaymentReceivedEvent.identifierTuple =
    (es.filterMap RawEvent.toPaymentSuccess?).map EventPaymentReceivedSuccess.identifierTuple := by
  induction es with
  | nil => rfl
  | cons e es ih =>
    by_cases he : e.event = "EventPaymentReceivedSuccess"
    · simp [RawEvent.toPaymentReceived?, RawEvent.toPaymentSuccess?, he, ih,
        PaymentReceivedEvent.identifierTuple, EventPaymentReceivedSuccess.identifierTuple]
    · simp [RawEvent.toPaymentReceived?, RawEvent.toPaymentSuccess?, he, ih]

theorem polled_once_iff (responses : List (List RawEvent)) (clock : Nat → Nat)
    (h : responses.IsChain (· <+: ·)) :
    ((raidenPoll responses).dispatched =
        (history responses).filterMap RawEvent.toPaymentReceived? ↔
      (((history responses).filterMap RawEvent.toPaymentSuccess?).map
        EventPaymentReceivedSuccess.identifierTuple).Nodup) ∧
    ((listenForEvents (transferReceived none) clock responses).eventQueue.map payment =
        (history responses).filterMap RawEvent.toPaymentSuccess? ↔
      (((history responses).filterMap RawEvent.toPaymentSuccess?).map
        EventPaymentReceivedSuccess.identifierTuple).Nodup) := by
  rw [raidenPoll_eq h, listenForEvents_eq clock h, firsts_eq_self_iff, firsts_eq_self_iff,
    map_identifierTuple]
  exact ⟨Iff.rfl, Iff.rfl⟩

/-! The taker pays its commitment twice for one offer; the payment of the maker comes between. -/

def makerPayment : RawEvent where
  event := "EventPaymentReceivedSuccess"
  initiator := 1
  amount := 10
  identifier := 7

def takerPayment : RawEvent where
  event := "EventPaymentReceivedSuccess"
  initiator := 2
  amount := 10
  identifier := 7

theorem makerAndTaker_polled_once :
    ((raidenPoll [[makerPayment], [makerPayment, takerPayment]]).dispatched =
        [makerPayment, takerPayment].filterMap RawEvent.toPaymentReceived? ↔
      ([makerPayment, takerPayment].filterMap RawEvent.toPaymentSuccess? |>.map
        EventPaymentReceivedSuccess.identifierTuple).Nodup) ∧
    ([makerPayment, takerPayment].filterMap RawEvent.toPaymentSuccess? |>.map
        EventPaymentReceivedSuccess.identifierTuple).Nodup :=
  ⟨(polled_once_iff [[makerPayment], [makerPayment, takerPayment]] id (by decide)).1, by decide⟩

/-- The second payment of the taker is handed on by neither poller, although the service refunds
a payment that does not advance its swap. -/
theorem secondPayment_not_polled :
    [[takerPayment], [takerPayment, makerPayment],
      [takerPayment, makerPayment, takerPayment]].IsChain (· <+: ·) ∧
    (raidenPoll [[takerPayment], [takerPayment, makerPayment],
      [takerPayment, makerPayment, takerPayment]]).dispatched ≠
      [takerPayment, makerPayment, takerPayment].filterMap RawEvent.toPaymentReceived? ∧
    ∀ clock, (listenForEvents (transferReceived none) clock [[takerPayment],
      [takerPayment, makerPayment], [takerPayment, makerPayment, takerPayment]]).eventQueue.map
        payment ≠
      [takerPayment, makerPayment, takerPayment].filterMap RawEvent.toPaymentSuccess? := by
  have hchain : [[takerPayment], [takerPayment, makerPayment],
      [takerPayment, makerPayment, takerPayment]].IsChain (· <+: ·) := by decide
  refine ⟨hchain, ?_, ?_⟩
  · rw [raidenPoll_eq hchain]
    decide
  · intro clock
    rw [listenForEvents_eq clock hchain]
    decide

end RaidexNode
end Raidex
