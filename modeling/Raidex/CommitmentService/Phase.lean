import Raidex.CommitmentService.Swap

/-!
# Raidex.CommitmentService.Phase

The abstract swap: in every phase exactly the data this phase implies, and a relation saying
what one call can do to it.

* `Party`, `Execution`, `Engagement`: an accepted deposit comes from the sender of the
  commitment it belongs to, a stored execution from the party it stands for.
* `Phase.toSwap`: the `SwapCommitment` of a phase.
* `Phase.Step`: a call, its outputs and the error it raises, one constructor for each way it
  can go.
-/

namespace Raidex
namespace CommitmentService

section

variable (C : Crypto)

/-- Commitments by their senders. -/
structure Pool where
  commitments : Dict Address Commitment
  sent : ∀ {a c}, commitments.lookup a = some c → sender C c = .ok a

/-- A party of the swap: the receipt of its deposit comes from the sender of its commitment. -/
structure Party where
  commitment : Commitment
  receipt : TransferReceipt
  committed : sender C commitment = .ok receipt.initiator

/-- A maker and the taker whose pooled commitment its deposit selected. -/
structure Engagement where
  maker : Party C
  taker : Party C
  pool : Pool C
  selected : pool.commitments.lookup taker.receipt.initiator = some taker.commitment

end

variable {C : Crypto}

def Pool.empty : Pool C where
  commitments := ∅
  sent h := by simp at h

def Pool.insert (pool : Pool C) {a : Address} {c : Commitment} (h : sender C c = .ok a) :
    Pool C where
  commitments := pool.commitments.insert a c
  sent := by
    intro b d hd
    by_cases hb : b = a
    · subst hb
      rw [AList.lookup_insert] at hd
      cases hd; exact h
    · rw [AList.lookup_insert_ne hb] at hd
      exact pool.sent hd

def Party.address (p : Party C) : Address := p.receipt.initiator

structure Execution (p : Party C) where
  msg : SwapExecution
  executed : sender C msg = .ok p.address

/-- The execution the service already has, of at most one party. -/
inductive Executed (e : Engagement C) where
  | neither
  | byMaker (x : Execution e.maker)
  | byTaker (x : Execution e.taker)

namespace Executed

variable {e : Engagement C}

def state : Executed e → SwapState
  | neither => .waitForExecution
  | byMaker _ => .waitForTakerExecution
  | byTaker _ => .waitForMakerExecution

def makerMsg : Executed e → Option SwapExecution
  | byMaker x => some x.msg
  | _ => none

def takerMsg : Executed e → Option SwapExecution
  | byTaker x => some x.msg
  | _ => none

/-- `a` is a party whose execution the service waits for. -/
def Awaits : Executed e → Address → Prop
  | neither, a => a = e.maker.address ∨ a = e.taker.address
  | byMaker _, a => a = e.taker.address
  | byTaker _, a => a = e.maker.address

end Executed

variable (C) in
/-- The phases of a swap. The last four are the ways a swap is processed. -/
inductive Phase where
  | initializing
  | waitForMaker (c : Commitment)
  | waitForTaker (maker : Party C) (pool : Pool C)
  | executing (e : Engagement C) (x : Executed e)
  | uncommitted (c : Option Commitment)
  | untraded (maker : Party C) (pool : Pool C)
  | failed (e : Engagement C) (x : Executed e)
  | traded (e : Engagement C) (x : Execution e.maker) (y : Execution e.taker) (completed : Nat)

section

variable (offerId : Nat) (secret : Hash)

def proof (p : Party C) : CommitmentProof :=
  (SwapCommitment.new C offerId secret).commitmentProof p.commitment

def withMaker (p : Party C) (pool : Pool C) : SwapCommitment :=
  { SwapCommitment.new C offerId secret with
    makerCommitmentMsg := some p.commitment
    makerTransferReceipt := some p.receipt
    makerCommitmentProof := some (proof offerId secret p)
    takerCommitmentPool := pool.commitments
    state := .waitForTaker }

def withTaker (e : Engagement C) : SwapCommitment :=
  { withMaker offerId secret e.maker e.pool with
    takerCommitmentMsg := some e.taker.commitment
    takerTransferReceipt := some e.taker.receipt }

def withExecuted (e : Engagement C) (x : Executed e) : SwapCommitment :=
  { withTaker offerId secret e with
    makerSwapExecutionMsg := x.makerMsg
    takerSwapExecutionMsg := x.takerMsg
    state := x.state }

def SwapCommitment.process (s : SwapCommitment) (terminated : SwapState) : SwapCommitment :=
  { s with terminatedState := some terminated, state := .processed }

def Phase.toSwap : Phase C → SwapCommitment
  | .initializing => .new C offerId secret
  | .waitForMaker c =>
    { SwapCommitment.new C offerId secret with
        makerCommitmentMsg := some c, state := .waitForMaker }
  | .waitForTaker p pool => withMaker offerId secret p pool
  | .executing e x => withExecuted offerId secret e x
  | .uncommitted c =>
    { SwapCommitment.new C offerId secret with makerCommitmentMsg := c }.process .uncommitted
  | .untraded p pool => (withMaker offerId secret p pool).process .untraded
  | .failed e x => (withExecuted offerId secret e x).process .failed
  | .traded e x y _ =>
    { withTaker offerId secret e with
      makerSwapExecutionMsg := some x.msg
      takerSwapExecutionMsg := some y.msg }.process .traded

end

/-! ## One call -/

def Call.trigger : Call → SwapTrigger
  | .makerCommitment _ => .makerCommitmentMsg
  | .takerCommitment _ => .takerCommitmentMsg
  | .transferReceipt _ => .transferReceipt
  | .swapExecution _ => .swapExecutionMsg
  | .cancellation => .timeout
  | .timeout => .timeout

/-- The triggers a phase has a transition for. -/
def Phase.accepts : Phase C → SwapTrigger → Bool
  | .initializing, .makerCommitmentMsg | .initializing, .timeout => true
  | .waitForMaker _, .transferReceipt | .waitForMaker _, .timeout => true
  | .waitForTaker _ _, .takerCommitmentMsg | .waitForTaker _ _, .transferReceipt
  | .waitForTaker _ _, .timeout => true
  | .executing _ _, .swapExecutionMsg | .executing _ _, .transferReceipt
  | .executing _ _, .timeout => true
  | _, _ => false

def bounce (r : TransferReceipt) : Output :=
  .refund { receipt := r, priority := 1, claimFee := false }

def refundWithFee (p : Party C) : Output :=
  .refund { receipt := p.receipt, priority := 1, claimFee := true }

section

variable (autoSpawnTimeout : Bool) (offerId : Nat) (secret : Hash) (now : Nat)

def sendProof (p : Party C) : Output :=
  .send (.commitmentProof (proof offerId secret p)) (some p.address)

def sendCancellationProof (p : Party C) : Output :=
  .send (.cancellationProof { offerId := offerId, cancellationProof := proof offerId secret p,
                              signature := none }) (some p.address)

def broadcastOfferTaken : Output :=
  .send (.offerTaken { offerId := offerId, signature := none }) none

def broadcastCompleted : Output :=
  .send (.swapCompleted { offerId := offerId, timestamp := now, signature := none }) none

/-- What is paid out and announced when both parties have executed. -/
def settle (e : Engagement C) : List Output :=
  [broadcastCompleted offerId now, refundWithFee e.maker, refundWithFee e.taker, .cleanup]

/-- A call in a phase leads to a phase, outputs and possibly an error. -/
inductive Phase.Step : Phase C → Call → Phase C → List Output → Option PyError → Prop
  | undeclared {p call} : p.accepts call.trigger = false →
      Step p call p [] (some .machineError)
  | makerCommitted {c} : (autoSpawnTimeout → c.timeout ≤ maxTimestamp) →
      Step .initializing (.makerCommitment c) (.waitForMaker c)
        (if autoSpawnTimeout then [.spawnTimeout c.timeout] else []) none
  | makerCommittedTooLate {c} : autoSpawnTimeout → ¬ c.timeout ≤ maxTimestamp →
      Step .initializing (.makerCommitment c) (.waitForMaker c) [] (some .overflowError)
  | abandoned {call} : call.trigger = .timeout →
      Step .initializing call (.uncommitted none) [.cleanup] none
  | makerDeposited {m} :
      Step (.waitForMaker m.commitment) (.transferReceipt m.receipt) (.waitForTaker m .empty)
        [sendProof offerId secret m] none
  | makerBounced {c r a} : sender C c = .ok a → r.initiator ≠ a →
      Step (.waitForMaker c) (.transferReceipt r) (.waitForMaker c) [bounce r] none
  | makerUnrecoverable {c r err} : sender C c = .error err →
      Step (.waitForMaker c) (.transferReceipt r) (.waitForMaker c) [] (some err)
  | uncommitted {c call} : call.trigger = .timeout →
      Step (.waitForMaker c) call (.uncommitted (some c)) [.cleanup] none
  | takerQueued {m pool c a} (h : sender C c = .ok a) : a ∉ pool.commitments →
      Step (.waitForTaker m pool) (.takerCommitment c) (.waitForTaker m (pool.insert h)) [] none
  | takerRepeated {m pool c a} : sender C c = .ok a → a ∈ pool.commitments →
      Step (.waitForTaker m pool) (.takerCommitment c) (.waitForTaker m pool) [] none
  | takerUnrecoverable {m pool c err} : sender C c = .error err →
      Step (.waitForTaker m pool) (.takerCommitment c) (.waitForTaker m pool) [] (some err)
  | takerDeposited {e} :
      Step (.waitForTaker e.maker e.pool) (.transferReceipt e.taker.receipt) (.executing e .neither)
        [broadcastOfferTaken offerId, sendProof offerId secret e.taker] none
  | takerBounced {m pool r} : r.initiator ∉ pool.commitments →
      Step (.waitForTaker m pool) (.transferReceipt r) (.waitForTaker m pool) [bounce r] none
  | untraded {m pool call} : call.trigger = .timeout →
      Step (.waitForTaker m pool) call (.untraded m pool)
        [bounce m.receipt, sendCancellationProof offerId secret m, .cleanup] none
  | makerExecuted {e} {x : Execution e.maker} :
      Step (.executing e .neither) (.swapExecution x.msg) (.executing e (.byMaker x)) [] none
  | takerExecuted {e} {y : Execution e.taker} : e.taker.address ≠ e.maker.address →
      Step (.executing e .neither) (.swapExecution y.msg) (.executing e (.byTaker y)) [] none
  | takerCompleted {e} {x : Execution e.maker} {y : Execution e.taker} :
      Step (.executing e (.byMaker x)) (.swapExecution y.msg) (.traded e x y now)
        (settle offerId now e) none
  | makerCompleted {e} {x : Execution e.maker} {y : Execution e.taker} :
      Step (.executing e (.byTaker y)) (.swapExecution x.msg) (.traded e x y now)
        (settle offerId now e) none
  | executionIgnored {e} {x : Executed e} {m a} : sender C m = .ok a → ¬ x.Awaits a →
      Step (.executing e x) (.swapExecution m) (.executing e x) [] none
  | executionUnrecoverable {e} {x : Executed e} {m err} : sender C m = .error err →
      Step (.executing e x) (.swapExecution m) (.executing e x) [] (some err)
  | executionBounced {e} {x : Executed e} {r} :
      Step (.executing e x) (.transferReceipt r) (.executing e x) [bounce r] none
  | failed {e} {x : Executed e} {call} : call.trigger = .timeout →
      Step (.executing e x) call (.failed e x) [.cleanup] none

end

end CommitmentService
end Raidex
