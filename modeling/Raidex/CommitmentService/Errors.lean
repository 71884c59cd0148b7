import Raidex.CommitmentService.Registry

/-!
# Raidex.CommitmentService.Errors

Which messages a task of the service survives.

* `Phase.Step.returns_*`: when a call of a live swap returns.
* `process_returns_iff`: for every reachable state, exactly when the `process` of each task
  returns.
-/

namespace Raidex
namespace CommitmentService

variable {C : Crypto} {offerId now : Nat} {secret : Hash}

/-- The swap registered under an offer id. -/
def Service.swap? (s : Service) (offerId : Nat) : Option SwapCommitment :=
  (s.swaps.lookup offerId).bind fun i => s.objects[i]?

def Executing (s : SwapCommitment) : Prop :=
  s.state ∈ [SwapState.waitForExecution, .waitForMakerExecution, .waitForTakerExecution]

/-- The sender of the swap's maker commitment can be recovered. -/
def MakerKnown (C : Crypto) (s : SwapCommitment) : Prop :=
  ∃ c a, s.makerCommitmentMsg = some c ∧ sender C c = .ok a

theorem Executed.executing {e : Engagement C} (x : Executed e) :
    Executing ((Phase.executing e x).toSwap offerId secret) := by
  cases x <;> simp [Executing, Phase.toSwap, withExecuted, Executed.state]

/-! ## Calls of a live swap -/

section

variable {p p' : Phase C} {outs : List Output} {err : Option PyError}

theorem Phase.Step.returns_takerCommitment {c : Commitment}
    (h : Phase.Step true offerId secret now p (.takerCommitment c) p' outs err) :
    err = none ↔ (p.toSwap offerId secret).state = .waitForTaker ∧ ∃ a, sender C c = .ok a := by
  cases h with
  | undeclared hacc =>
    refine iff_of_false nofun ?_
    rintro ⟨hstate, -⟩
    cases p with
    | waitForTaker m pool => cases hacc
    | executing e x => cases x <;> cases hstate
    | _ => cases hstate
  | takerQueued hc _ | takerRepeated hc _ => exact iff_of_true rfl ⟨rfl, _, hc⟩
  | takerUnrecoverable hc =>
    exact iff_of_false nofun (by rintro ⟨-, a, ha⟩; rw [hc] at ha; cases ha)
  | abandoned htr | uncommitted htr | untraded htr | failed htr => cases htr

theorem Phase.Step.returns_swapExecution {m : SwapExecution}
    (h : Phase.Step true offerId secret now p (.swapExecution m) p' outs err) :
    err = none ↔ Executing (p.toSwap offerId secret) ∧ ∃ a, sender C m = .ok a := by
  cases h with
  | undeclared hacc =>
    refine iff_of_false nofun ?_
    rintro ⟨hstate, -⟩
    cases p with
    | executing e x => cases hacc
    | _ => simp [Executing, toSwap, withMaker, SwapCommitment.new, SwapCommitment.process] at hstate
  | makerExecuted => rename_i e x; exact iff_of_true rfl ⟨Executed.executing _, _, x.executed⟩
  | takerExecuted _ => rename_i e y _; exact iff_of_true rfl ⟨Executed.executing _, _, y.executed⟩
  | takerCompleted => rename_i e x y; exact iff_of_true rfl ⟨Executed.executing _, _, y.executed⟩
  | makerCompleted => rename_i e x y; exact iff_of_true rfl ⟨Executed.executing _, _, x.executed⟩
  | executionIgnored hm _ => exact iff_of_true rfl ⟨Executed.executing _, _, hm⟩
  | executionUnrecoverable hm =>
    exact iff_of_false nofun (by rintro ⟨-, a, ha⟩; rw [hm] at ha; cases ha)
  | abandoned htr | uncommitted htr | untraded htr | failed htr => cases htr

theorem Phase.Step.returns_transferReceipt {r : TransferReceipt}
    (h : Phase.Step true offerId secret now p (.transferReceipt r) p' outs err)
    (hinit : (p.toSwap offerId secret).state ≠ .initializing)
    (hlive : (p.toSwap offerId secret).state ≠ .processed) :
    err = none ↔ ((p.toSwap offerId secret).state = .waitForMaker →
      MakerKnown C (p.toSwap offerId secret)) := by
  cases h with
  | undeclared hacc =>
    cases p with
    | initializing => exact absurd rfl hinit
    | waitForMaker c | waitForTaker m pool | executing e x => cases hacc
    | _ => exact absurd rfl hlive
  | makerDeposited => rename_i m; exact iff_of_true rfl fun _ => ⟨_, _, rfl, m.committed⟩
  | makerBounced hc _ => exact iff_of_true rfl fun _ => ⟨_, _, rfl, hc⟩
  | makerUnrecoverable hc =>
    refine iff_of_false nofun ?_
    intro h
    obtain ⟨c, a, hc', ha⟩ := h rfl
    cases hc'
    rw [hc] at ha; cases ha
  | takerDeposited | takerBounced _ => exact iff_of_true rfl nofun
  | executionBounced => rename_i e x; exact iff_of_true rfl fun h => by cases x <;> cases h
  | abandoned htr | uncommitted htr | untraded htr | failed htr => cases htr

theorem Phase.Step.returns_cancellation
    (h : Phase.Step true offerId secret now p .cancellation p' outs err)
    (hlive : (p.toSwap offerId secret).state ≠ .processed) : err = none := by
  cases h with
  | undeclared hacc =>
    cases p with
    | initializing | waitForMaker c | waitForTaker m pool | executing e x => cases hacc
    | _ => exact absurd rfl hlive
  | _ => rfl

theorem Phase.Step.returns_makerCommitment {c : Commitment}
    (h : Phase.Step true offerId secret now .initializing (.makerCommitment c) p' outs err) :
    err = none ↔ c.timeout ≤ maxTimestamp := by
  cases h with
  | undeclared hacc => cases hacc
  | makerCommitted hok => exact iff_of_true rfl (hok rfl)
  | makerCommittedTooLate _ hlate => exact iff_of_false nofun hlate
  | abandoned htr => cases htr

end

/-! ## The tasks -/

/-- The outcome of an input, by the error of the way it goes. -/
theorem returns_served {s : Service} (hs : Registry C s) (input : ServiceInput) :
    ∃ s' err, Served C s input s' err ∧
      (EStateM.Returns (process C input) s ↔ err = none) := by
  obtain ⟨s', err, hserved, hrun⟩ := served hs input
  refine ⟨s', err, hserved, ?_⟩
  rw [EStateM.Returns, hrun, EStateM.Result.returned_of, Option.isNone_iff_eq_none]

/-- A swap the registry names is live. -/
theorem Registry.swap?_live {s : Service} (hs : Registry C s) {i : Nat} {o : SwapCommitment}
    (hl : s.swaps.lookup offerId = some i) (ho : s.objects[i]? = some o) :
    s.swap? offerId = some o ∧ o.state ≠ .initializing ∧ o.state ≠ .processed := by
  obtain ⟨o', ho', -, hlive, hinit⟩ := hs.registered _ _ hl
  obtain rfl : o' = o := Option.some.inj (ho'.symm.trans ho)
  exact ⟨by rw [Service.swap?, hl]; exact ho, hinit, hlive⟩

theorem Service.swap?_none {s : Service} (h : s.swaps.lookup offerId = none) :
    s.swap? offerId = none := by
  rw [swap?, h]; rfl

def CommitmentHandled (C : Crypto) (s : Service) (c : Commitment) : Prop :=
  match s.swap? c.offerId with
  | some o => o.state = .waitForTaker ∧ ∃ a, sender C c = .ok a
  | none => c.timeout ≤ maxTimestamp

def ExecutionHandled (C : Crypto) (s : Service) (e : SwapExecution) : Prop :=
  ∀ o, s.swap? e.offerId = some o → Executing o ∧ ∃ a, sender C e = .ok a

def ReceiptHandled (C : Crypto) (s : Service) (r : TransferReceipt) : Prop :=
  ∀ o, s.swap? r.identifier = some o → o.state = .waitForMaker → MakerKnown C o

theorem processCommitment_returns_iff {s : Service} (hs : Registry C s) (now : Nat) (secret : Hash)
    (c : Commitment) :
    EStateM.Returns (processCommitment C now secret c) s ↔ CommitmentHandled C s c := by
  obtain ⟨s', err, hserved, hiff⟩ :=
    returns_served hs { now := now, event := .commitment secret c }
  refine hiff.trans ?_
  cases hserved with
  | called hroute ho hstep =>
    obtain ⟨i, hl, ⟨⟩⟩ := Option.map_eq_some_iff.mp hroute
    rw [CommitmentHandled, (hs.swap?_live hl ho).1]
    exact hstep.returns_takerCommitment
  | created hl hstep =>
    rw [CommitmentHandled, Service.swap?_none hl]
    exact hstep.returns_makerCommitment
  | ignored _ hno => exact absurd rfl (hno secret c)

theorem processSwapExecution_returns_iff {s : Service} (hs : Registry C s) (now : Nat)
    (e : SwapExecution) :
    EStateM.Returns (processSwapExecution C now e) s ↔ ExecutionHandled C s e := by
  obtain ⟨s', err, hserved, hiff⟩ := returns_served hs { now := now, event := .swapExecution e }
  refine hiff.trans ?_
  cases hserved with
  | called hroute ho hstep =>
    obtain ⟨i, hl, ⟨⟩⟩ := Option.map_eq_some_iff.mp hroute
    rw [hstep.returns_swapExecution, ExecutionHandled, (hs.swap?_live hl ho).1]
    exact ⟨by rintro h o ⟨⟩; exact h, fun h => h _ rfl⟩
  | ignored hroute _ =>
    rw [ExecutionHandled, Service.swap?_none (Option.map_eq_none_iff.mp hroute)]
    exact iff_of_true rfl fun o ho => by cases ho

theorem processTransferReceived_returns_iff {s : Service} (hs : Registry C s) (now : Nat)
    (r : TransferReceipt) :
    EStateM.Returns (processTransferReceived C now r) s ↔ ReceiptHandled C s r := by
  obtain ⟨s', err, hserved, hiff⟩ := returns_served hs { now := now, event := .transferReceipt r }
  refine hiff.trans ?_
  cases hserved with
  | called hroute ho hstep =>
    obtain ⟨i, hl, ⟨⟩⟩ := Option.map_eq_some_iff.mp hroute
    obtain ⟨hswap, hinit, hlive⟩ := hs.swap?_live hl ho
    rw [hstep.returns_transferReceipt hinit hlive, ReceiptHandled, hswap]
    exact ⟨by rintro h o ⟨⟩; exact h, fun h => h _ rfl⟩
  | ignored hroute _ =>
    rw [ReceiptHandled, Service.swap?_none (Option.map_eq_none_iff.mp hroute)]
    exact iff_of_true rfl fun o ho => by cases ho

theorem processCancellationRequest_returns {s : Service} (hs : Registry C s) (now : Nat)
    (m : Cancellation) : EStateM.Returns (processCancellationRequest C now m) s := by
  obtain ⟨s', err, hserved, hiff⟩ := returns_served hs { now := now, event := .cancellation m }
  refine hiff.mpr ?_
  cases hserved with
  | called hroute ho hstep =>
    obtain ⟨i, hl, ⟨⟩⟩ := Option.map_eq_some_iff.mp hroute
    exact hstep.returns_cancellation (hs.swap?_live hl ho).2.2
  | ignored _ _ => rfl

/-- In every reachable state: exactly which messages the tasks survive. -/
theorem process_returns_iff (C : Crypto) (is : List ServiceInput) (now : Nat) :
    (∀ secret c, EStateM.Returns (processCommitment C now secret c) (serviceRun C is) ↔
      CommitmentHandled C (serviceRun C is) c) ∧
    (∀ e, EStateM.Returns (processSwapExecution C now e) (serviceRun C is) ↔
      ExecutionHandled C (serviceRun C is) e) ∧
    (∀ m, EStateM.Returns (processCancellationRequest C now m) (serviceRun C is)) ∧
    (∀ r, EStateM.Returns (processTransferReceived C now r) (serviceRun C is) ↔
      ReceiptHandled C (serviceRun C is) r) :=
  ⟨processCommitment_returns_iff (registry_run is) now,
    processSwapExecution_returns_iff (registry_run is) now,
    processCancellationRequest_returns (registry_run is) now,
    processTransferReceived_returns_iff (registry_run is) now⟩

/-- A second commitment that arrives before the maker's deposit stops the task. -/
theorem early_taker_commitment_raises :
    ¬ EStateM.Returns (processCommitment .plain 0 0 (commitmentOf (some 2)))
      (serviceRun .plain [{ now := 0, event := .commitment 0 (commitmentOf (some 1)) }]) := by
  decide +kernel

end CommitmentService
end Raidex
