import Raidex.Lib.Fsm
import Raidex.Messages

/-!
# Raidex.CommitmentService.Swap

One swap at the commitment service: `SwapCommitment` and its state machine.

The functions a swap is given for sending, refunding and cleaning up are modelled by what they
are called with: every call appends to the outputs of the run, in order. A call into the swap is
an `EStateM` program over the swap and these outputs, so a call that raises keeps the callbacks
it already ran.
-/

namespace Raidex
namespace CommitmentService

structure TransferReceipt where
  initiator : Address
  amount : Nat
  identifier : Nat
  timestamp : Nat
  deriving DecidableEq, Repr

structure Refund where
  receipt : TransferReceipt
  priority : Int
  claimFee : Bool
  deriving DecidableEq, Repr

/-- The messages a swap sends. -/
inductive Message where
  | offerTaken (m : OfferTaken)
  | swapCompleted (m : SwapCompleted)
  | commitmentProof (m : CommitmentProof)
  | cancellationProof (m : CancellationProof)
  deriving DecidableEq, Repr

/-- A call of one of the functions the swap was built with, or a spawned timer. A message
without a topic is a broadcast. -/
inductive Output where
  | send (msg : Message) (topic : Option Address)
  | refund (r : Refund)
  | cleanup
  | spawnTimeout (timeout : Nat)
  deriving DecidableEq, Repr

inductive SwapState where
  | initializing
  | waitForMaker
  | waitForTaker
  | waitForExecution
  | waitForMakerExecution
  | waitForTakerExecution
  | traded
  | uncommitted
  | untraded
  | failed
  | processed
  deriving DecidableEq, Repr

inductive SwapTrigger where
  | timeout
  | makerCommitmentMsg
  | transferReceipt
  | takerCommitmentMsg
  | swapExecutionMsg
  | finalize
  deriving DecidableEq, Repr

/-- The fields of a `SwapCommitment`, with the state and the commitment pool of its machine. -/
structure SwapCommitment where
  offerId : Nat
  makerCommitmentMsg : Option Commitment
  takerCommitmentMsg : Option Commitment
  makerCommitmentProof : Option CommitmentProof
  makerSwapExecutionMsg : Option SwapExecution
  takerSwapExecutionMsg : Option SwapExecution
  makerTransferReceipt : Option TransferReceipt
  takerTransferReceipt : Option TransferReceipt
  terminatedState : Option SwapState
  secret : Hash
  secretHash : Hash
  state : SwapState
  takerCommitmentPool : Dict Address Commitment

structure SwapRun where
  swap : SwapCommitment
  out : List Output

abbrev SwapM := EStateM PyError SwapRun

/-- The keyword arguments of a trigger. -/
inductive Kwargs where
  | none
  | commitment (c : Commitment)
  | execution (e : SwapExecution)
  | receipt (r : TransferReceipt)

def Kwargs.commitmentMsg : Kwargs → Option Commitment
  | .commitment c => some c
  | _ => Option.none

def Kwargs.executionMsg : Kwargs → Option SwapExecution
  | .execution e => some e
  | _ => Option.none

def Kwargs.transferReceipt : Kwargs → Option TransferReceipt
  | .receipt r => some r
  | _ => Option.none

structure SwapArgs where
  now : Nat
  kwargs : Kwargs

abbrev SwapEvent := Fsm.EventData SwapState SwapArgs

section

variable (C : Crypto)

def SwapCommitment.new (offerId : Nat) (secret : Hash) : SwapCommitment where
  offerId := offerId
  makerCommitmentMsg := none
  takerCommitmentMsg := none
  makerCommitmentProof := none
  makerSwapExecutionMsg := none
  takerSwapExecutionMsg := none
  makerTransferReceipt := none
  takerTransferReceipt := none
  terminatedState := none
  secret := secret
  secretHash := C.keccak (bigEndian 32 secret.toNat)
  state := .initializing
  takerCommitmentPool := ∅

/-! ## Methods of the swap -/

def makerAddress : SwapM (Option Address) := do
  match (← get).swap.makerCommitmentMsg with
  | none => return none
  | some c => return some (← MonadExcept.ofExcept (sender C c))

def takerAddress : SwapM (Option Address) := do
  match (← get).swap.takerCommitmentMsg with
  | none => return none
  | some c => return some (← MonadExcept.ofExcept (sender C c))

def isMaker (address : Address) : SwapM Bool := do
  return some address == (← makerAddress C)

def isTaker (address : Address) : SwapM Bool := do
  return some address == (← takerAddress C)

def updateSwap (f : SwapCommitment → SwapCommitment) : SwapM Unit :=
  modify fun x => { x with swap := f x.swap }

def output (o : Output) : SwapM Unit := modify fun x => { x with out := x.out ++ [o] }

def queueSend (msg : Message) (topic : Option Address) : SwapM Unit := output (.send msg topic)

def queueRefund (receipt : TransferReceipt) (priority : Int) (claimFee : Bool) : SwapM Unit :=
  output (.refund { receipt := receipt, priority := priority, claimFee := claimFee })

/-- Reading an attribute of `None` raises. -/
def getAttribute {α : Type} : Option α → SwapM α
  | none => throw .attributeError
  | some a => pure a

def sendOfferTaken : SwapM Unit := do
  queueSend (.offerTaken { offerId := (← get).swap.offerId, signature := none }) none

def sendSwapCompleted (now : Nat) : SwapM Unit := do
  queueSend (.swapCompleted { offerId := (← get).swap.offerId, timestamp := now,
                              signature := none }) none

/-- The proof of a commitment: its signature, under the secret of the swap. -/
def SwapCommitment.commitmentProof (s : SwapCommitment) (c : Commitment) : CommitmentProof where
  commitmentSig := c.signature
  secret := s.secret
  secretHash := s.secretHash
  offerId := s.offerId
  signature := none

def sendMakerCommitmentProof : SwapM Unit := do
  let s := (← get).swap
  let c ← getAttribute s.makerCommitmentMsg
  updateSwap fun s => { s with makerCommitmentProof := some (s.commitmentProof c) }
  queueSend (.commitmentProof (s.commitmentProof c)) (← makerAddress C)

def sendTakerCommitmentProof : SwapM Unit := do
  let s := (← get).swap
  let c ← getAttribute s.takerCommitmentMsg
  queueSend (.commitmentProof (s.commitmentProof c)) (← takerAddress C)

def punishMaker : SwapM Unit := pure ()

def punishTaker : SwapM Unit := pure ()

def refundMaker : SwapM Unit := do
  let s := (← get).swap
  queueRefund (← getAttribute s.makerTransferReceipt) 1 false
  let p ← getAttribute s.makerCommitmentProof
  queueSend (.cancellationProof { offerId := s.offerId, cancellationProof := p,
                                  signature := none }) (← makerAddress C)

def refundMakerWithFee : SwapM Unit := do
  queueRefund (← getAttribute (← get).swap.makerTransferReceipt) 1 true

def refundTakerWithFee : SwapM Unit := do
  queueRefund (← getAttribute (← get).swap.takerTransferReceipt) 1 true

def cleanup : SwapM Unit := output .cleanup

/-! ## Callbacks of the state machine -/

def omitArgsAndKwargs (f : SwapM Unit) : SwapEvent → SwapM Unit := fun _ => f

/-- The initiator of a receipt or the sender of a message. -/
def eventInitiatorOrSender : Kwargs → Except PyError Address
  | .none => .error .valueError
  | .receipt r => .ok r.initiator
  | .commitment c => sender C c
  | .execution e => sender C e

def senderIsMaker (ev : SwapEvent) : SwapM Bool := do
  isMaker C (← MonadExcept.ofExcept (eventInitiatorOrSender C ev.args.kwargs))

def senderIsTaker (ev : SwapEvent) : SwapM Bool := do
  isTaker C (← MonadExcept.ofExcept (eventInitiatorOrSender C ev.args.kwargs))

def senderSentTakerCommitment (ev : SwapEvent) : SwapM Bool := do
  let r ← getAttribute ev.args.kwargs.transferReceipt
  return r.initiator ∈ (← get).swap.takerCommitmentPool

def queueCommitment (ev : SwapEvent) : SwapM Unit := do
  let c ← getAttribute ev.args.kwargs.commitmentMsg
  let a ← MonadExcept.ofExcept (sender C c)
  if a ∈ (← get).swap.takerCommitmentPool then
    -- a sender's later commitments are ignored
    pure ()
  else
    updateSwap fun s => { s with takerCommitmentPool := s.takerCommitmentPool.insert a c }

def acceptTakerCommitmentFromReceipt (ev : SwapEvent) : SwapM Unit := do
  let r ← getAttribute ev.args.kwargs.transferReceipt
  match (← get).swap.takerCommitmentPool.lookup r.initiator with
  | none => throw .keyError
  | some c => updateSwap fun s => { s with takerCommitmentMsg := some c }

def spawnTimeout (ev : SwapEvent) : SwapM Unit := do
  let c ← getAttribute ev.args.kwargs.commitmentMsg
  let _ ← MonadExcept.ofExcept (secondsToTimeout ev.args.now c.timeout)
  output (.spawnTimeout c.timeout)

/-- Refund every receipt that did not successfully trigger a state change. -/
def refundUnsuccessfulTransfer (ev : SwapEvent) : SwapM Unit := do
  let r ← getAttribute ev.args.kwargs.transferReceipt
  if ev.result = false then queueRefund r 1 false

def setTerminatedState (ev : SwapEvent) : SwapM Unit :=
  updateSwap fun s => { s with terminatedState := some ev.source }

def setTakerExecution (ev : SwapEvent) : SwapM Unit :=
  updateSwap fun s => { s with takerSwapExecutionMsg := ev.args.kwargs.executionMsg }

def setMakerExecution (ev : SwapEvent) : SwapM Unit :=
  updateSwap fun s => { s with makerSwapExecutionMsg := ev.args.kwargs.executionMsg }

def setMakerTransferReceipt (ev : SwapEvent) : SwapM Unit :=
  updateSwap fun s => { s with makerTransferReceipt := ev.args.kwargs.transferReceipt }

def setTakerTransferReceipt (ev : SwapEvent) : SwapM Unit :=
  updateSwap fun s => { s with takerTransferReceipt := ev.args.kwargs.transferReceipt }

def setMakerCommitment (ev : SwapEvent) : SwapM Unit :=
  updateSwap fun s => { s with makerCommitmentMsg := ev.args.kwargs.commitmentMsg }

/-! ## The state machine -/

abbrev SwapTransition := Fsm.Transition SwapState SwapTrigger SwapArgs PyError SwapRun

abbrev SwapMachine := Fsm.Machine SwapState SwapTrigger SwapArgs PyError SwapRun

def swapMachine (transitions : List SwapTransition) : SwapMachine where
  state x := x.swap.state
  setState s x := { x with swap := { x.swap with state := s } }
  transitions := transitions
  machineError := .machineError

/-- `add_transition` with a list of sources. -/
def fromEach (sources : List SwapState) (t : SwapState → SwapTransition) : List SwapTransition :=
  sources.map t

def finalizeTransitions : List SwapTransition :=
  fromEach [.traded, .untraded, .failed, .uncommitted] fun s =>
    { trigger := .finalize, source := s, dest := .processed,
      after := [setTerminatedState, omitArgsAndKwargs cleanup] }

/-- The callback `'finalize'`: it fires the trigger of that name, whose transitions call no
trigger themselves. -/
def finalize (ev : SwapEvent) : SwapM Unit := do
  let _ ← (swapMachine finalizeTransitions).trigger .finalize { ev.args with kwargs := .none }

/-- The transitions in the order in which `swap_setup_state_transitions` adds them. A
destination `'='` is the source. With `auto_spawn_timeout` the transition of
`maker_commitment_msg` is removed and added again at the end. -/
def swapTransitions (autoSpawnTimeout : Bool) : List SwapTransition :=
  [{ trigger := .timeout, source := .waitForTaker, dest := .untraded,
     after := [omitArgsAndKwargs (refundMaker C), finalize] }] ++
  (fromEach [.initializing, .waitForMaker] fun s =>
    { trigger := .timeout, source := s, dest := .uncommitted, after := [finalize] }) ++
  (if autoSpawnTimeout then [] else
    [{ trigger := .makerCommitmentMsg, source := .initializing, dest := .waitForMaker,
       after := [setMakerCommitment] }]) ++
  [{ trigger := .transferReceipt, source := .waitForMaker, dest := .waitForTaker,
     conditions := [senderIsMaker C],
     after := [setMakerTransferReceipt, omitArgsAndKwargs (sendMakerCommitmentProof C)] },
   { trigger := .takerCommitmentMsg, source := .waitForTaker, dest := .waitForTaker,
     before := [queueCommitment C] },
   { trigger := .transferReceipt, source := .waitForTaker, dest := .waitForExecution,
     conditions := [senderSentTakerCommitment],
     after := [acceptTakerCommitmentFromReceipt, setTakerTransferReceipt,
       omitArgsAndKwargs sendOfferTaken, omitArgsAndKwargs (sendTakerCommitmentProof C)] },
   { trigger := .swapExecutionMsg, source := .waitForExecution, dest := .waitForTakerExecution,
     conditions := [senderIsMaker C], after := [setMakerExecution] },
   { trigger := .swapExecutionMsg, source := .waitForExecution, dest := .waitForMakerExecution,
     conditions := [senderIsTaker C], after := [setTakerExecution] },
   { trigger := .swapExecutionMsg, source := .waitForTakerExecution, dest := .traded,
     conditions := [senderIsTaker C],
     after := [setTakerExecution, fun ev => sendSwapCompleted ev.args.now,
       omitArgsAndKwargs refundMakerWithFee, omitArgsAndKwargs refundTakerWithFee, finalize] },
   { trigger := .swapExecutionMsg, source := .waitForMakerExecution, dest := .traded,
     conditions := [senderIsMaker C],
     after := [setMakerExecution, fun ev => sendSwapCompleted ev.args.now,
       omitArgsAndKwargs refundMakerWithFee, omitArgsAndKwargs refundTakerWithFee, finalize] }] ++
  (fromEach [.waitForExecution, .waitForTakerExecution, .waitForMakerExecution] fun s =>
    { trigger := .timeout, source := s, dest := .failed,
      after := [omitArgsAndKwargs punishMaker, omitArgsAndKwargs punishTaker, finalize] }) ++
  finalizeTransitions ++
  -- refund transfers that don't trigger any action
  [{ trigger := .transferReceipt, source := .waitForTaker, dest := .waitForTaker,
     unlessConditions := [senderSentTakerCommitment], after := [refundUnsuccessfulTransfer] },
   { trigger := .transferReceipt, source := .waitForMaker, dest := .waitForMaker,
     unlessConditions := [senderIsMaker C], after := [refundUnsuccessfulTransfer] }] ++
  (fromEach [.waitForExecution, .waitForTakerExecution, .waitForMakerExecution,
      .failed, .traded, .uncommitted, .untraded] fun s =>
    { trigger := .transferReceipt, source := s, dest := s,
      after := [refundUnsuccessfulTransfer] }) ++
  (if autoSpawnTimeout then
    [{ trigger := .makerCommitmentMsg, source := .initializing, dest := .waitForMaker,
       after := [setMakerCommitment, spawnTimeout] }] else [])

/-! ## Calls into a swap -/

variable (autoSpawnTimeout : Bool)

def fireTrigger (t : SwapTrigger) (now : Nat) (kwargs : Kwargs) : SwapM Unit := do
  let _ ← (swapMachine (swapTransitions C autoSpawnTimeout)).trigger t
    { now := now, kwargs := kwargs }

def triggerTimeout (now : Nat) : SwapM Unit := fireTrigger C autoSpawnTimeout .timeout now .none

def handSwapExecutionMsg (now : Nat) (e : SwapExecution) : SwapM Unit :=
  fireTrigger C autoSpawnTimeout .swapExecutionMsg now (.execution e)

def handMakerCommitmentMsg (now : Nat) (c : Commitment) : SwapM Unit :=
  fireTrigger C autoSpawnTimeout .makerCommitmentMsg now (.commitment c)

def handTakerCommitmentMsg (now : Nat) (c : Commitment) : SwapM Unit :=
  fireTrigger C autoSpawnTimeout .takerCommitmentMsg now (.commitment c)

def handTransferReceipt (now : Nat) (r : TransferReceipt) : SwapM Unit :=
  fireTrigger C autoSpawnTimeout .transferReceipt now (.receipt r)

def handCancellationMsg (now : Nat) : SwapM Unit :=
  fireTrigger C autoSpawnTimeout .timeout now .none

/-- The calls the tasks and the timer make. -/
inductive Call where
  | makerCommitment (c : Commitment)
  | takerCommitment (c : Commitment)
  | transferReceipt (r : TransferReceipt)
  | swapExecution (e : SwapExecution)
  | cancellation
  | timeout
  deriving DecidableEq, Repr

def hand (now : Nat) : Call → SwapM Unit
  | .makerCommitment c => handMakerCommitmentMsg C autoSpawnTimeout now c
  | .takerCommitment c => handTakerCommitmentMsg C autoSpawnTimeout now c
  | .transferReceipt r => handTransferReceipt C autoSpawnTimeout now r
  | .swapExecution e => handSwapExecutionMsg C autoSpawnTimeout now e
  | .cancellation => handCancellationMsg C autoSpawnTimeout now
  | .timeout => triggerTimeout C autoSpawnTimeout now

end

end CommitmentService
end Raidex
