import Raidex.CommitmentService.Announcements
import Raidex.CommitmentService.Accounting

/-!
# Raidex.CommitmentService.Tasks

The commitment service: the swaps it has made, the registry `swaps` its tasks share, the queues
the swaps fill and the timers they spawned.

A swap is an object, named by its place in `objects`: the registry forgets a swap that is
processed, its timer does not. The queues list everything the swaps have put on them, also what
`RefundTask` and `MessageSenderTask` have taken off since. Every random secret and clock reading
is part of the input that uses it.
-/

namespace Raidex
namespace CommitmentService

structure Service where
  objects : List SwapCommitment
  swaps : Dict Nat Nat
  refundQueue : List Refund
  messageQueue : List Envelope
  timers : List Nat

def Service.init : Service where
  objects := []
  swaps := ∅
  refundQueue := []
  messageQueue := []
  timers := []

abbrev ServiceM := EStateM PyError Service

/-! ## SwapFactory -/

def idCollides (offerId : Nat) : ServiceM Bool := do
  return offerId ∈ (← get).swaps

def makeSwap (C : Crypto) (offerId : Nat) (secret : Hash) : ServiceM (Option Nat) := do
  if ← idCollides offerId then return none
  let i := (← get).objects.length
  modify fun s => { s with objects := s.objects ++ [.new C offerId secret]
                           swaps := s.swaps.insert offerId i }
  return some i

def cleanupSwap (offerId : Nat) : ServiceM Unit := do
  if offerId ∈ (← get).swaps then modify fun s => { s with swaps := s.swaps.erase offerId }
  else throw .keyError

/-! ## Calls of the swaps -/

/-- What a call of swap `i` does outside of it. -/
def perform (i offerId : Nat) : Output → ServiceM Unit
  | .send msg topic => modify fun s => { s with messageQueue := s.messageQueue ++ [(msg, topic)] }
  | .refund r => modify fun s => { s with refundQueue := s.refundQueue ++ [r] }
  | .cleanup => cleanupSwap offerId
  | .spawnTimeout _ => modify fun s => { s with timers := s.timers ++ [i] }

def performAll (i offerId : Nat) : List Output → ServiceM Unit
  | [] => pure ()
  | o :: os => do
    perform i offerId o
    performAll i offerId os

def storeSwap (i : Nat) (swap : SwapCommitment) : ServiceM Unit :=
  modify fun s => { s with objects := s.objects.set i swap }

/-- Call a method of swap `i`. No callback follows the cleanup of a swap, so its outputs can
be performed after the call. -/
def callSwap (C : Crypto) (i now : Nat) (call : Call) : ServiceM Unit := do
  match (← get).objects[i]? with
  | none => pure ()
  | some swap =>
    match (hand C true now call).run { swap := swap, out := [] } with
    | .ok _ x => do
      storeSwap i x.swap
      performAll i swap.offerId x.out
    | .error e x => do
      storeSwap i x.swap
      performAll i swap.offerId x.out
      throw e

/-! ## The tasks -/

section

variable (C : Crypto) (now : Nat)

def processTransferReceived (r : TransferReceipt) : ServiceM Unit := do
  match (← get).swaps.lookup r.identifier with
  | some i => callSwap C i now (.transferReceipt r)
  | none => pure () -- not refunded

def processCancellationRequest (m : Cancellation) : ServiceM Unit := do
  match (← get).swaps.lookup m.offerId with
  | some i => callSwap C i now .cancellation
  | none => pure ()

def processCommitment (secret : Hash) (c : Commitment) : ServiceM Unit := do
  match (← get).swaps.lookup c.offerId with
  | some i => callSwap C i now (.takerCommitment c)
  | none =>
    match ← makeSwap C c.offerId secret with
    | some i => callSwap C i now (.makerCommitment c)
    | none => pure ()

def processSwapExecution (e : SwapExecution) : ServiceM Unit := do
  match (← get).swaps.lookup e.offerId with
  | some i => callSwap C i now (.swapExecution e)
  | none => pure ()

/-- A pending timer of swap `i` fires. -/
def fireTimer (i : Nat) : ServiceM Unit := do
  if i ∈ (← get).timers then
    modify fun s => { s with timers := s.timers.erase i }
    callSwap C i now .timeout

end

/-! ## Runs of the service -/

/-- What a task receives, or a timer that fires. -/
inductive ServiceEvent where
  | commitment (secret : Hash) (c : Commitment)
  | transferReceipt (r : TransferReceipt)
  | swapExecution (e : SwapExecution)
  | cancellation (m : Cancellation)
  | timer (i : Nat)

structure ServiceInput where
  now : Nat
  event : ServiceEvent

def process (C : Crypto) (input : ServiceInput) : ServiceM Unit :=
  match input.event with
  | .commitment secret c => processCommitment C input.now secret c
  | .transferReceipt r => processTransferReceived C input.now r
  | .swapExecution e => processSwapExecution C input.now e
  | .cancellation m => processCancellationRequest C input.now m
  | .timer i => fireTimer C input.now i

/-- One input, in any order of the tasks. Runs in which a task goes on after it raised are
included. -/
def serviceStep (C : Crypto) (s : Service) (input : ServiceInput) : Service :=
  ((process C input).run s).state

def serviceRun (C : Crypto) (is : List ServiceInput) : Service :=
  LTS.run (serviceStep C) .init is

end CommitmentService
end Raidex
