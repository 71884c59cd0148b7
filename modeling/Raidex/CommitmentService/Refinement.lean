import Raidex.Lib.Run
import Raidex.CommitmentService.Phase

/-!
# Raidex.CommitmentService.Refinement

The state machine of the code does what the phases allow: from the `SwapCommitment` of a phase,
every call makes a `Phase.Step`.

* `declares_*`: the transitions the table declares for a trigger in a state, in order.
* `hand_step`: one call, for every phase and call.
* `swapRun`: a run of a swap, any sequence of calls; `swapRun_induction`: what every step of the
  phases keeps holds after every run.
-/

namespace Raidex
namespace CommitmentService

variable {C : Crypto} {autoSpawnTimeout : Bool}

/-! ## The transition table -/

/-- `trs` are the transitions the table declares for `t` in state `s`. -/
def Declares (C : Crypto) (autoSpawnTimeout : Bool) (t : SwapTrigger) (s : SwapState)
    (trs : List SwapTransition) : Prop :=
  (swapMachine (swapTransitions C autoSpawnTimeout)).candidates t [s] = trs

theorem declares_none {p : Phase C} {call : Call} (offerId : Nat) (secret : Hash)
    (h : p.accepts call.trigger = false) :
    Declares C autoSpawnTimeout call.trigger (p.toSwap offerId secret).state [] := by
  cases p with
  | executing e x =>
    cases autoSpawnTimeout <;> cases x <;> cases call <;> first | rfl | cases h
  | _ => cases autoSpawnTimeout <;> cases call <;> first | rfl | cases h

theorem declares_makerCommitmentMsg :
    Declares C autoSpawnTimeout .makerCommitmentMsg .initializing
      [{ trigger := .makerCommitmentMsg, source := .initializing, dest := .waitForMaker,
         after := setMakerCommitment :: if autoSpawnTimeout then [spawnTimeout] else [] }] := by
  cases autoSpawnTimeout <;> rfl

theorem declares_timeout_early {s : SwapState} (h : s ∈ [SwapState.initializing, .waitForMaker]) :
    Declares C autoSpawnTimeout .timeout s
      [{ trigger := .timeout, source := s, dest := .uncommitted, after := [finalize] }] := by
  cases autoSpawnTimeout <;> cases s <;> first | rfl | simp at h

theorem declares_makerReceipt :
    Declares C autoSpawnTimeout .transferReceipt .waitForMaker
      [{ trigger := .transferReceipt, source := .waitForMaker, dest := .waitForTaker,
         conditions := [senderIsMaker C],
         after := [setMakerTransferReceipt, omitArgsAndKwargs (sendMakerCommitmentProof C)] },
       { trigger := .transferReceipt, source := .waitForMaker, dest := .waitForMaker,
         unlessConditions := [senderIsMaker C], after := [refundUnsuccessfulTransfer] }] := by
  cases autoSpawnTimeout <;> rfl

theorem declares_takerCommitmentMsg :
    Declares C autoSpawnTimeout .takerCommitmentMsg .waitForTaker
      [{ trigger := .takerCommitmentMsg, source := .waitForTaker, dest := .waitForTaker,
         before := [queueCommitment C] }] := by
  cases autoSpawnTimeout <;> rfl

theorem declares_takerReceipt :
    Declares C autoSpawnTimeout .transferReceipt .waitForTaker
      [{ trigger := .transferReceipt, source := .waitForTaker, dest := .waitForExecution,
         conditions := [senderSentTakerCommitment],
         after := [acceptTakerCommitmentFromReceipt, setTakerTransferReceipt,
           omitArgsAndKwargs sendOfferTaken, omitArgsAndKwargs (sendTakerCommitmentProof C)] },
       { trigger := .transferReceipt, source := .waitForTaker, dest := .waitForTaker,
         unlessConditions := [senderSentTakerCommitment],
         after := [refundUnsuccessfulTransfer] }] := by
  cases autoSpawnTimeout <;> rfl

theorem declares_timeout_waitForTaker :
    Declares C autoSpawnTimeout .timeout .waitForTaker
      [{ trigger := .timeout, source := .waitForTaker, dest := .untraded,
         after := [omitArgsAndKwargs (refundMaker C), finalize] }] := by
  cases autoSpawnTimeout <;> rfl

theorem declares_firstExecution :
    Declares C autoSpawnTimeout .swapExecutionMsg .waitForExecution
      [{ trigger := .swapExecutionMsg, source := .waitForExecution, dest := .waitForTakerExecution,
         conditions := [senderIsMaker C], after := [setMakerExecution] },
       { trigger := .swapExecutionMsg, source := .waitForExecution, dest := .waitForMakerExecution,
         conditions := [senderIsTaker C], after := [setTakerExecution] }] := by
  cases autoSpawnTimeout <;> rfl

theorem declares_takerExecution :
    Declares C autoSpawnTimeout .swapExecutionMsg .waitForTakerExecution
      [{ trigger := .swapExecutionMsg, source := .waitForTakerExecution, dest := .traded,
         conditions := [senderIsTaker C],
         after := [setTakerExecution, fun ev => sendSwapCompleted ev.args.now,
           omitArgsAndKwargs refundMakerWithFee, omitArgsAndKwargs refundTakerWithFee,
           finalize] }] := by
  cases autoSpawnTimeout <;> rfl

theorem declares_makerExecution :
    Declares C autoSpawnTimeout .swapExecutionMsg .waitForMakerExecution
      [{ trigger := .swapExecutionMsg, source := .waitForMakerExecution, dest := .traded,
         conditions := [senderIsMaker C],
         after := [setMakerExecution, fun ev => sendSwapCompleted ev.args.now,
           omitArgsAndKwargs refundMakerWithFee, omitArgsAndKwargs refundTakerWithFee,
           finalize] }] := by
  cases autoSpawnTimeout <;> rfl

theorem declares_receipt_executing {e : Engagement C} (x : Executed e) :
    Declares C autoSpawnTimeout .transferReceipt x.state
      [{ trigger := .transferReceipt, source := x.state, dest := x.state,
         after := [refundUnsuccessfulTransfer] }] := by
  cases autoSpawnTimeout <;> cases x <;> rfl

theorem declares_timeout_executing {e : Engagement C} (x : Executed e) :
    Declares C autoSpawnTimeout .timeout x.state
      [{ trigger := .timeout, source := x.state, dest := .failed,
         after := [omitArgsAndKwargs punishMaker, omitArgsAndKwargs punishTaker,
           finalize] }] := by
  cases autoSpawnTimeout <;> cases x <;> rfl

/-! ## One call, as a trigger -/

def Call.kwargs : Call → Kwargs
  | .makerCommitment c => .commitment c
  | .takerCommitment c => .commitment c
  | .transferReceipt r => .receipt r
  | .swapExecution e => .execution e
  | .cancellation => .none
  | .timeout => .none

theorem hand_eq_fireTrigger (now : Nat) (call : Call) :
    hand C autoSpawnTimeout now call =
      fireTrigger C autoSpawnTimeout call.trigger now call.kwargs := by
  cases call <;> rfl

section

variable {now : Nat} {call : Call} {x y : SwapRun} {trs : List SwapTransition}

theorem hand_undeclared (h : Declares C autoSpawnTimeout call.trigger x.swap.state []) :
    (hand C autoSpawnTimeout now call).run x = .error .machineError x := by
  rw [hand_eq_fireTrigger, fireTrigger]
  exact EStateM.run_seq_error (Fsm.Machine.trigger_undeclared _ h)

theorem hand_ok {tr : SwapTransition} {b : Bool}
    (h : Declares C autoSpawnTimeout call.trigger x.swap.state (tr :: trs))
    (hf : ((swapMachine (swapTransitions C autoSpawnTimeout)).fire
      { now := now, kwargs := call.kwargs } (tr :: trs)).run x = .ok b y) :
    (hand C autoSpawnTimeout now call).run x = .ok () y := by
  rw [hand_eq_fireTrigger, fireTrigger]
  exact EStateM.run_seq_ok ((Fsm.Machine.trigger_candidates _ h).trans hf)

theorem hand_error {tr : SwapTransition} {e : PyError}
    (h : Declares C autoSpawnTimeout call.trigger x.swap.state (tr :: trs))
    (hf : ((swapMachine (swapTransitions C autoSpawnTimeout)).fire
      { now := now, kwargs := call.kwargs } (tr :: trs)).run x = .error e y) :
    (hand C autoSpawnTimeout now call).run x = .error e y := by
  rw [hand_eq_fireTrigger, fireTrigger]
  exact EStateM.run_seq_error ((Fsm.Machine.trigger_candidates _ h).trans hf)

end

theorem run_finalize {ev : SwapEvent} {x : SwapRun} {s : SwapState} (hs : x.swap.state = s)
    (h : s ∈ [SwapState.traded, .untraded, .failed, .uncommitted]) :
    (finalize ev).run x = .ok () { swap := x.swap.process s, out := x.out ++ [.cleanup] } := by
  obtain ⟨swap, out⟩ := x
  obtain ⟨⟩ := swap
  subst hs
  rename_i state _
  cases state <;> first | rfl | simp at h

/-! ## The calls of each phase -/

variable (autoSpawnTimeout) in
/-- The call, made on the swap of phase `p`, makes a step. -/
def Makes (offerId : Nat) (secret : Hash) (now : Nat) (out : List Output) (p : Phase C)
    (call : Call) : Prop :=
  ∃ p' outs err, Phase.Step autoSpawnTimeout offerId secret now p call p' outs err ∧
    (hand C autoSpawnTimeout now call).run { swap := p.toSwap offerId secret, out := out } =
      .of err { swap := p'.toSwap offerId secret, out := out ++ outs }

section

attribute [local simp] swapMachine senderIsMaker senderIsTaker senderSentTakerCommitment
  eventInitiatorOrSender isMaker isTaker makerAddress takerAddress setMakerTransferReceipt
  setTakerTransferReceipt setMakerExecution setTakerExecution setMakerCommitment
  omitArgsAndKwargs sendMakerCommitmentProof sendTakerCommitmentProof sendOfferTaken
  sendSwapCompleted refundMaker refundMakerWithFee refundTakerWithFee punishMaker punishTaker
  updateSwap getAttribute queueSend queueRefund output Kwargs.transferReceipt
  Kwargs.commitmentMsg Kwargs.executionMsg queueCommitment acceptTakerCommitmentFromReceipt
  spawnTimeout refundUnsuccessfulTransfer Call.kwargs

attribute [local simp] Phase.toSwap withMaker withTaker withExecuted SwapCommitment.new
  SwapCommitment.process SwapCommitment.commitmentProof Pool.empty Pool.insert Party.address
  proof sendProof sendCancellationProof bounce refundWithFee broadcastOfferTaken
  broadcastCompleted settle Executed.state Executed.makerMsg Executed.takerMsg run_finalize
  EStateM.Result.of

variable {offerId : Nat} {secret : Hash} {now : Nat} {out : List Output}

theorem makes_undeclared {p : Phase C} {call : Call} (h : p.accepts call.trigger = false) :
    Makes autoSpawnTimeout offerId secret now out p call := by
  refine ⟨p, [], _, .undeclared h, ?_⟩
  rw [hand_undeclared (declares_none offerId secret h), List.append_nil]
  rfl

theorem makes_makerCommitment {c : Commitment} :
    Makes autoSpawnTimeout offerId secret now out (.initializing : Phase C)
      (.makerCommitment c) := by
  by_cases hlate : autoSpawnTimeout ∧ ¬ c.timeout ≤ maxTimestamp
  · refine ⟨_, _, _, .makerCommittedTooLate hlate.1 hlate.2, ?_⟩
    refine hand_error declares_makerCommitmentMsg ?_
    simp [hlate.1, secondsToTimeout_error hlate.2]
  · refine ⟨_, _, _, .makerCommitted (by tauto), ?_⟩
    refine hand_ok declares_makerCommitmentMsg (b := true) ?_
    cases autoSpawnTimeout with
    | false => simp
    | true => simp [secondsToTimeout_ok (show c.timeout ≤ maxTimestamp by tauto)]

theorem makes_abandoned {call : Call} (h : call.trigger = .timeout) :
    Makes autoSpawnTimeout offerId secret now out (.initializing : Phase C) call := by
  refine ⟨_, _, _, .abandoned h, ?_⟩
  refine hand_ok (h ▸ declares_timeout_early (by simp)) (b := true) ?_
  simp

theorem makes_makerReceipt {c : Commitment} {r : TransferReceipt} :
    Makes autoSpawnTimeout offerId secret now out (.waitForMaker c : Phase C)
      (.transferReceipt r) := by
  cases hc : sender C c with
  | error err =>
    refine ⟨_, _, _, .makerUnrecoverable hc, ?_⟩
    refine hand_error declares_makerReceipt ?_
    simp [hc]
  | ok a =>
    by_cases ha : r.initiator = a
    · subst ha
      refine ⟨_, _, _, .makerDeposited (m := ⟨c, r, hc⟩), ?_⟩
      refine hand_ok declares_makerReceipt (b := true) ?_
      simp [hc]
    · refine ⟨_, _, _, .makerBounced hc ha, ?_⟩
      refine hand_ok declares_makerReceipt (b := true) ?_
      simp [hc, ha]

theorem makes_uncommitted {c : Commitment} {call : Call} (h : call.trigger = .timeout) :
    Makes autoSpawnTimeout offerId secret now out (.waitForMaker c : Phase C) call := by
  refine ⟨_, _, _, .uncommitted h, ?_⟩
  refine hand_ok (h ▸ declares_timeout_early (by simp)) (b := true) ?_
  simp

theorem makes_takerCommitment {m : Party C} {pool : Pool C} {c : Commitment} :
    Makes autoSpawnTimeout offerId secret now out (.waitForTaker m pool)
      (.takerCommitment c) := by
  cases hc : sender C c with
  | error err =>
    refine ⟨_, _, _, .takerUnrecoverable hc, ?_⟩
    refine hand_error declares_takerCommitmentMsg ?_
    simp [hc]
  | ok a =>
    by_cases ha : a ∈ pool.commitments
    · refine ⟨_, _, _, .takerRepeated hc ha, ?_⟩
      refine hand_ok declares_takerCommitmentMsg (b := true) ?_
      simp [hc, ha]
    · refine ⟨_, _, _, .takerQueued hc ha, ?_⟩
      refine hand_ok declares_takerCommitmentMsg (b := true) ?_
      simp [hc, ha]

theorem makes_takerReceipt {m : Party C} {pool : Pool C} {r : TransferReceipt} :
    Makes autoSpawnTimeout offerId secret now out (.waitForTaker m pool)
      (.transferReceipt r) := by
  cases hl : pool.commitments.lookup r.initiator with
  | none =>
    have ha : r.initiator ∉ pool.commitments := AList.lookup_eq_none.mp hl
    refine ⟨_, _, _, .takerBounced ha, ?_⟩
    refine hand_ok declares_takerReceipt (b := true) ?_
    simp [ha]
  | some c =>
    have ha : r.initiator ∈ pool.commitments :=
      AList.lookup_isSome.mp (by rw [hl]; rfl)
    refine ⟨_, _, _, .takerDeposited (e := ⟨m, ⟨c, r, pool.sent hl⟩, pool, hl⟩), ?_⟩
    refine hand_ok declares_takerReceipt (b := true) ?_
    simp [ha, hl, pool.sent hl]

theorem makes_untraded {m : Party C} {pool : Pool C} {call : Call} (h : call.trigger = .timeout) :
    Makes autoSpawnTimeout offerId secret now out (.waitForTaker m pool) call := by
  refine ⟨_, _, _, .untraded h, ?_⟩
  refine hand_ok (h ▸ declares_timeout_waitForTaker) (b := true) ?_
  simp [m.committed]

theorem makes_execution {e : Engagement C} {x : Executed e} {msg : SwapExecution} :
    Makes autoSpawnTimeout offerId secret now out (.executing e x) (.swapExecution msg) := by
  have hmaker := e.maker.committed
  have htaker := e.taker.committed
  cases hs : sender C msg with
  | error err =>
    refine ⟨_, _, _, .executionUnrecoverable hs, ?_⟩
    cases x with
    | neither => refine hand_error declares_firstExecution ?_; simp [hs]
    | byMaker x => refine hand_error declares_takerExecution ?_; simp [hs]
    | byTaker y => refine hand_error declares_makerExecution ?_; simp [hs]
  | ok a =>
    by_cases haw : x.Awaits a
    · cases x with
      | neither =>
        by_cases ha : a = e.maker.address
        · subst ha
          refine ⟨_, _, _, .makerExecuted (x := ⟨msg, hs⟩), ?_⟩
          refine hand_ok declares_firstExecution (b := true) ?_
          simp [hs, hmaker]
        · have hat : a = e.taker.address := haw.resolve_left ha
          subst hat
          refine ⟨_, _, _, .takerExecuted (y := ⟨msg, hs⟩) ha, ?_⟩
          refine hand_ok declares_firstExecution (b := true) ?_
          simp only [Party.address] at ha
          simp [hs, hmaker, htaker, ha]
      | byMaker x =>
        obtain rfl : a = e.taker.address := haw
        refine ⟨_, _, _, .takerCompleted (y := ⟨msg, hs⟩), ?_⟩
        refine hand_ok declares_takerExecution (b := true) ?_
        simp [hs, htaker]
      | byTaker y =>
        obtain rfl : a = e.maker.address := haw
        refine ⟨_, _, _, .makerCompleted (x := ⟨msg, hs⟩), ?_⟩
        refine hand_ok declares_makerExecution (b := true) ?_
        simp [hs, hmaker]
    · refine ⟨_, _, _, .executionIgnored hs haw, ?_⟩
      cases x with
      | neither =>
        simp only [Executed.Awaits, Party.address, not_or] at haw
        refine hand_ok declares_firstExecution (b := false) ?_
        simp [hs, hmaker, htaker, haw]
      | byMaker x =>
        simp only [Executed.Awaits, Party.address] at haw
        refine hand_ok declares_takerExecution (b := false) ?_
        simp [hs, htaker, haw]
      | byTaker y =>
        simp only [Executed.Awaits, Party.address] at haw
        refine hand_ok declares_makerExecution (b := false) ?_
        simp [hs, hmaker, haw]

theorem makes_executionBounced {e : Engagement C} {x : Executed e} {r : TransferReceipt} :
    Makes autoSpawnTimeout offerId secret now out (.executing e x) (.transferReceipt r) := by
  refine ⟨_, _, _, .executionBounced, ?_⟩
  refine hand_ok (declares_receipt_executing x) (b := true) ?_
  simp

theorem makes_failed {e : Engagement C} {x : Executed e} {call : Call}
    (h : call.trigger = .timeout) :
    Makes autoSpawnTimeout offerId secret now out (.executing e x) call := by
  refine ⟨_, _, _, .failed h, ?_⟩
  refine hand_ok (h ▸ declares_timeout_executing x) (b := true) ?_
  simp

end

/-- Every call on the swap of a phase makes a step of the phase. -/
theorem hand_step (autoSpawnTimeout : Bool) (p : Phase C) (call : Call) (offerId : Nat)
    (secret : Hash) (now : Nat)
    (out : List Output) : Makes autoSpawnTimeout offerId secret now out p call := by
  by_cases hacc : p.accepts call.trigger = false
  · exact makes_undeclared hacc
  cases p with
  | initializing =>
    cases call with
    | makerCommitment c => exact makes_makerCommitment
    | cancellation | timeout => exact makes_abandoned rfl
    | _ => exact absurd rfl hacc
  | waitForMaker c =>
    cases call with
    | transferReceipt r => exact makes_makerReceipt
    | cancellation | timeout => exact makes_uncommitted rfl
    | _ => exact absurd rfl hacc
  | waitForTaker m pool =>
    cases call with
    | takerCommitment c => exact makes_takerCommitment
    | transferReceipt r => exact makes_takerReceipt
    | cancellation | timeout => exact makes_untraded rfl
    | _ => exact absurd rfl hacc
  | executing e x =>
    cases call with
    | swapExecution m => exact makes_execution
    | transferReceipt r => exact makes_executionBounced
    | cancellation | timeout => exact makes_failed rfl
    | _ => exact absurd rfl hacc
  | _ => exact absurd rfl hacc

/-! ## Runs -/

section

variable (C autoSpawnTimeout)

/-- A call, with the clock reading it sees. What a raising call changed before stays changed. -/
def swapStep (x : SwapRun) (i : Nat × Call) : SwapRun :=
  ((hand C autoSpawnTimeout i.1 i.2).run x).state

def swapInit (offerId : Nat) (secret : Hash) : SwapRun where
  swap := .new C offerId secret
  out := []

def swapRun (offerId : Nat) (secret : Hash) (is : List (Nat × Call)) : SwapRun :=
  LTS.run (swapStep C autoSpawnTimeout) (swapInit C offerId secret) is

end

variable {offerId : Nat} {secret : Hash}

theorem swapRun_concat (is : List (Nat × Call)) (i : Nat × Call) :
    swapRun C autoSpawnTimeout offerId secret (is ++ [i]) =
      swapStep C autoSpawnTimeout (swapRun C autoSpawnTimeout offerId secret is) i :=
  LTS.run_concat _ is i

theorem swapStep_phase (autoSpawnTimeout : Bool) (offerId : Nat) (secret : Hash)
    (p : Phase C) (out : List Output) (i : Nat × Call) :
    ∃ p' outs err, Phase.Step autoSpawnTimeout offerId secret i.1 p i.2 p' outs err ∧
      swapStep C autoSpawnTimeout { swap := p.toSwap offerId secret, out := out } i =
        { swap := p'.toSwap offerId secret, out := out ++ outs } := by
  obtain ⟨p', outs, err, hstep, hrun⟩ :=
    hand_step autoSpawnTimeout p i.2 offerId secret i.1 out
  refine ⟨p', outs, err, hstep, ?_⟩
  rw [swapStep, hrun, EStateM.Result.state_of]

/-- The induction on the runs of a swap, over its phases. -/
theorem swapRun_induction (C : Crypto) (autoSpawnTimeout : Bool) (offerId : Nat) (secret : Hash)
    (P : List (Nat × Call) → Phase C → List Output → Prop) (h0 : P [] .initializing [])
    (hstep : ∀ h p out now call p' outs err, P h p out →
      swapRun C autoSpawnTimeout offerId secret h =
        { swap := p.toSwap offerId secret, out := out } →
      Phase.Step autoSpawnTimeout offerId secret now p call p' outs err →
      P (h ++ [(now, call)]) p' (out ++ outs)) (is : List (Nat × Call)) :
    ∃ p : Phase C, (swapRun C autoSpawnTimeout offerId secret is).swap = p.toSwap offerId secret ∧
      P is p (swapRun C autoSpawnTimeout offerId secret is).out := by
  induction is using List.reverseRecOn with
  | nil => exact ⟨.initializing, rfl, h0⟩
  | append_singleton h i ih =>
    obtain ⟨p, hswap, hP⟩ := ih
    have hx : swapRun C autoSpawnTimeout offerId secret h =
        { swap := p.toSwap offerId secret,
          out := (swapRun C autoSpawnTimeout offerId secret h).out } := by
      rw [← hswap]
    obtain ⟨p', outs, err, hs, hrun⟩ :=
      swapStep_phase autoSpawnTimeout offerId secret p
        (swapRun C autoSpawnTimeout offerId secret h).out i
    rw [← hx] at hrun
    rw [swapRun_concat, hrun]
    exact ⟨p', rfl, hstep h p _ i.1 i.2 p' outs err hP hx hs⟩

/-- The last call of a run, as a step of the phases. -/
theorem swapRun_step (C : Crypto) (autoSpawnTimeout : Bool) (offerId : Nat) (secret : Hash)
    (h : List (Nat × Call)) (i : Nat × Call) : ∃ (p p' : Phase C) (outs : List Output)
      (err : Option PyError), Phase.Step autoSpawnTimeout offerId secret i.1 p i.2 p' outs err ∧
      (swapRun C autoSpawnTimeout offerId secret h).swap = p.toSwap offerId secret ∧
      (swapRun C autoSpawnTimeout offerId secret (h ++ [i])).swap = p'.toSwap offerId secret := by
  obtain ⟨p, hp, -⟩ := swapRun_induction C autoSpawnTimeout offerId secret
    (fun _ _ _ => True) trivial
    (fun _ _ _ _ _ _ _ _ _ _ _ => trivial) h
  obtain ⟨p', outs, err, hstep, hrun⟩ :=
    swapStep_phase autoSpawnTimeout offerId secret p
      (swapRun C autoSpawnTimeout offerId secret h).out i
  refine ⟨p, p', outs, err, hstep, hp, ?_⟩
  rw [← hp] at hrun
  rw [swapRun_concat, hrun]

end CommitmentService
end Raidex
