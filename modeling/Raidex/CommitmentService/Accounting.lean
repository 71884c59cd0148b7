import Raidex.CommitmentService.Roles

/-!
# Raidex.CommitmentService.Accounting

Where the transfers handed to one swap go.

* `Accounted`: every transfer is a deposit or bounced, and the refunds are the bounced ones and
  the settlement of the deposits.
* `Phase.Step.accounting`: what one call adds to either side.
* `deposits_accounted_iff`: the accounts of a swap that has its maker commitment are right
  exactly when the sender of this commitment can be recovered or no transfer was handed in.
-/

namespace Raidex
namespace CommitmentService

open scoped List

def Call.receipt : Call → Option TransferReceipt
  | .transferReceipt r => some r
  | _ => none

/-- The transfers among the calls. -/
def handedReceipts (is : List (Nat × Call)) : List TransferReceipt :=
  is.filterMap fun i => i.2.receipt

def Output.toRefund : Output → Option Refund
  | .refund r => some r
  | _ => none

def refunds (out : List Output) : List Refund := out.filterMap Output.toRefund

def SwapCommitment.deposits (s : SwapCommitment) : List TransferReceipt :=
  s.makerTransferReceipt.toList ++ s.takerTransferReceipt.toList

def refundOf (claimFee : Bool) (r : TransferReceipt) : Refund where
  receipt := r
  priority := 1
  claimFee := claimFee

/-- What is refunded of the deposits when the swap is processed. -/
def SwapCommitment.settlement (s : SwapCommitment) : List Refund :=
  match s.terminatedState with
  | some .traded => s.deposits.map (refundOf true)
  | some .untraded => s.makerTransferReceipt.toList.map (refundOf false)
  | _ => []

/-- Every transfer handed in is a deposit or bounced, and the refunds are those of the bounced
transfers, without fee, and the settlement. -/
def Accounted (handed : List TransferReceipt) (s : SwapCommitment) (refunded : List Refund) :
    Prop :=
  ∃ bounced, handed ~ s.deposits ++ bounced ∧
    refunded ~ bounced.map (refundOf false) ++ s.settlement

theorem accounted_nil_iff {handed : List TransferReceipt} {s : SwapCommitment}
    (hd : s.deposits = []) (hs : s.settlement = []) : Accounted handed s [] ↔ handed = [] := by
  constructor
  · rintro ⟨bounced, hperm, hnil⟩
    rw [hs, List.append_nil] at hnil
    have hb : bounced = [] := List.map_eq_nil_iff.mp hnil.symm.eq_nil
    rw [hd, hb] at hperm
    exact hperm.eq_nil
  · rintro rfl
    exact ⟨[], by rw [hd]; exact .refl _, by rw [hs]; exact .refl _⟩

/-- A call that takes in `new` and pays out `paid` keeps the accounts when both sides grow by
the same bounced transfers. -/
theorem Accounted.step {handed new : List TransferReceipt} {s s' : SwapCommitment}
    {refunded paid : List Refund} (h : Accounted handed s refunded) {bounced : List TransferReceipt}
    (hnew : s.deposits ++ new ~ s'.deposits ++ bounced)
    (hpaid : s.settlement ++ paid ~ bounced.map (refundOf false) ++ s'.settlement) :
    Accounted (handed ++ new) s' (refunded ++ paid) := by
  obtain ⟨before, hh, hr⟩ := h
  refine ⟨bounced ++ before, ?_, ?_⟩
  · calc handed ++ new ~ s.deposits ++ before ++ new := hh.append_right _
      _ ~ s.deposits ++ new ++ before := by
          rw [List.append_assoc, List.append_assoc]; exact List.perm_append_comm.append_left _
      _ ~ s'.deposits ++ (bounced ++ before) := by
          rw [← List.append_assoc]; exact hnew.append_right _
  · calc refunded ++ paid ~ before.map (refundOf false) ++ s.settlement ++ paid :=
          hr.append_right _
      _ ~ before.map (refundOf false) ++ (bounced.map (refundOf false) ++ s'.settlement) := by
          rw [List.append_assoc]; exact hpaid.append_left _
      _ ~ (bounced ++ before).map (refundOf false) ++ s'.settlement := by
          rw [List.map_append, ← List.append_assoc]
          exact List.perm_append_comm.append_right _

variable {C : Crypto} {autoSpawnTimeout : Bool} {offerId : Nat} {secret : Hash}

/-- What a call on a live swap takes in, keeps, bounces and pays out. The maker's commitment is
stored and its sender is known. -/
theorem Phase.Step.accounting {now : Nat} {p p' : Phase C} {call : Call} {outs : List Output}
    {err : Option PyError} {c : Commitment} {a : Address}
    (h : Phase.Step autoSpawnTimeout offerId secret now p call p' outs err)
    (hlive : (p.toSwap offerId secret).state ≠ .processed)
    (hmaker : (p.toSwap offerId secret).makerCommitmentMsg = some c) (hc : sender C c = .ok a) :
    ∃ bounced,
      (p.toSwap offerId secret).deposits ++ call.receipt.toList ~
        (p'.toSwap offerId secret).deposits ++ bounced ∧
      (p.toSwap offerId secret).settlement ++ refunds outs ~
        bounced.map (refundOf false) ++ (p'.toSwap offerId secret).settlement := by
  have hstop {call : Call} (h : call.trigger = .timeout) : call.receipt = none := by
    cases call <;> first | rfl | cases h
  cases h with
  | undeclared hacc =>
    have hnone : call.receipt = none := by
      cases call with
      | transferReceipt r =>
        cases p with
        | initializing => cases hmaker
        | waitForMaker c | waitForTaker m pool | executing e x => cases hacc
        | _ => exact absurd rfl hlive
      | _ => rfl
    exact ⟨[], by rw [hnone]; exact .refl _, .of_eq (List.append_nil _)⟩
  | makerCommitted _ | makerCommittedTooLate _ _ => cases hmaker
  | abandoned htr => cases hmaker
  | makerUnrecoverable hs =>
    cases hmaker; rw [hc] at hs; cases hs
  | makerBounced _ _ | takerBounced _ | executionBounced => exact ⟨[_], .refl _, .refl _⟩
  | uncommitted htr | untraded htr | failed htr => rw [hstop htr]; exact ⟨[], .refl _, .refl _⟩
  | _ => exact ⟨[], .refl _, .refl _⟩

/-! ## A swap with its maker commitment -/

section

variable (C autoSpawnTimeout offerId secret)

/-- A new swap that was handed `c` as its maker commitment. -/
def committedSwap (now : Nat) (c : Commitment) : SwapRun :=
  swapStep C autoSpawnTimeout (swapInit C offerId secret) (now, .makerCommitment c)

end

variable {now : Nat} {c : Commitment}

theorem committedSwap_phase (C : Crypto) (autoSpawnTimeout : Bool) (offerId : Nat)
    (secret : Hash) (now : Nat) (c : Commitment) : ∃ out,
    committedSwap C autoSpawnTimeout offerId secret now c =
      { swap := (Phase.waitForMaker c : Phase C).toSwap offerId secret, out := out } ∧
    refunds out = [] := by
  obtain ⟨p', outs, err, hstep, hrun⟩ := swapStep_phase autoSpawnTimeout offerId
    secret (.initializing : Phase C) [] (now, .makerCommitment c)
  refine ⟨outs, ?_⟩
  cases hstep with
  | undeclared hacc => cases hacc
  | makerCommitted _ => exact ⟨hrun, by cases autoSpawnTimeout <;> rfl⟩
  | makerCommittedTooLate _ _ => exact ⟨hrun, rfl⟩
  | abandoned htr => cases htr

theorem handedReceipts_concat (h : List (Nat × Call)) (i : Nat × Call) :
    handedReceipts (h ++ [i]) = handedReceipts h ++ i.2.receipt.toList := by
  rw [handedReceipts, List.filterMap_append, ← handedReceipts]
  cases hr : i.2.receipt <;> simp [hr]

/-- With a known maker, every run keeps the accounts. -/
theorem accounted_of_recoverable {a : Address} (hc : sender C c = .ok a) (is : List (Nat × Call))
    (hlive : LTS.AllSteps (swapStep C autoSpawnTimeout) (fun x _ => x.swap.state ≠ .processed)
      (committedSwap C autoSpawnTimeout offerId secret now c) is) :
    Accounted (handedReceipts is)
      (LTS.run (swapStep C autoSpawnTimeout)
        (committedSwap C autoSpawnTimeout offerId secret now c) is).swap
      (refunds (LTS.run (swapStep C autoSpawnTimeout)
        (committedSwap C autoSpawnTimeout offerId secret now c) is).out) := by
  have hinv := LTS.run_invariant_of_guard (swapStep C autoSpawnTimeout)
    (fun x _ => x.swap.state ≠ .processed)
    (fun h x => ∃ p : Phase C, x.swap = p.toSwap offerId secret ∧
      x.swap.makerCommitmentMsg = some c ∧ Accounted (handedReceipts h) x.swap (refunds x.out))
    (s := committedSwap C autoSpawnTimeout offerId secret now c) ?_ ?_ is hlive
  · obtain ⟨p, -, -, hacc⟩ := hinv
    exact hacc
  · obtain ⟨out, heq, hout⟩ := committedSwap_phase C autoSpawnTimeout offerId secret now c
    rw [heq]
    exact ⟨.waitForMaker c, rfl, rfl, by rw [hout]; exact (accounted_nil_iff rfl rfl).mpr rfl⟩
  · rintro h ⟨swap, out⟩ i ⟨p, hp, hmaker, hacc⟩ hstate
    obtain rfl : swap = p.toSwap offerId secret := hp
    obtain ⟨p', outs, err, hstep, hrun⟩ := swapStep_phase autoSpawnTimeout offerId
      secret p out i
    obtain ⟨bounced, hnew, hpaid⟩ := hstep.accounting hstate hmaker hc
    rw [hrun]
    refine ⟨p', rfl, hstep.kept.makerCommitmentMsg _ hmaker, ?_⟩
    rw [handedReceipts_concat, refunds, List.filterMap_append]
    exact hacc.step hnew hpaid

/-- With an unknown maker nothing is ever refunded. -/
theorem no_refund_of_unrecoverable (autoSpawnTimeout : Bool) (offerId : Nat) (secret : Hash)
    (now : Nat) {err : PyError} (hc : sender C c = .error err)
    (is : List (Nat × Call)) :
    (LTS.run (swapStep C autoSpawnTimeout)
      (committedSwap C autoSpawnTimeout offerId secret now c) is).swap.deposits = [] ∧
    (LTS.run (swapStep C autoSpawnTimeout)
      (committedSwap C autoSpawnTimeout offerId secret now c) is).swap.settlement = [] ∧
    refunds (LTS.run (swapStep C autoSpawnTimeout)
      (committedSwap C autoSpawnTimeout offerId secret now c) is).out = [] := by
  have hinv := LTS.run_invariant (swapStep C autoSpawnTimeout)
    (fun _ x => ∃ p : Phase C, x.swap = p.toSwap offerId secret ∧
      (p = .waitForMaker c ∨ p = .uncommitted (some c)) ∧ refunds x.out = [])
    (s := committedSwap C autoSpawnTimeout offerId secret now c) ?_ ?_ is
  · obtain ⟨p, hp, hphase, hout⟩ := hinv
    rw [hp]
    rcases hphase with rfl | rfl <;> exact ⟨rfl, rfl, hout⟩
  · obtain ⟨out, heq, hout⟩ := committedSwap_phase C autoSpawnTimeout offerId secret now c
    rw [heq]
    exact ⟨.waitForMaker c, rfl, .inl rfl, hout⟩
  · rintro h ⟨swap, out⟩ ⟨t, call⟩ ⟨p, hp, hphase, hout⟩
    obtain rfl : swap = p.toSwap offerId secret := hp
    obtain ⟨p', outs, err, hstep, hrun⟩ := swapStep_phase autoSpawnTimeout offerId
      secret p out (t, call)
    have hp' : (p' = .waitForMaker c ∨ p' = .uncommitted (some c)) ∧ refunds outs = [] := by
      rcases hphase with rfl | rfl
      · cases hstep with
        | undeclared _ => exact ⟨.inl rfl, rfl⟩
        | makerDeposited => rename_i m; rw [m.committed] at hc; cases hc
        | makerBounced hs _ => rw [hc] at hs; cases hs
        | makerUnrecoverable _ => exact ⟨.inl rfl, rfl⟩
        | uncommitted _ => exact ⟨.inr rfl, rfl⟩
      · cases hstep with
        | undeclared _ => exact ⟨.inr rfl, rfl⟩
    rw [hrun]
    refine ⟨p', rfl, hp'.1, ?_⟩
    rw [refunds, List.filterMap_append, ← refunds, ← refunds, hp'.2, List.append_nil]
    exact hout

/-- The accounts of a swap that has its maker commitment, after calls up to the one that
processes it: they are right exactly when the sender of the commitment can be recovered, or no
transfer was handed in. -/
theorem deposits_accounted_iff (C : Crypto) (autoSpawnTimeout : Bool) (offerId : Nat)
    (secret : Hash) (now : Nat) (c : Commitment) (is : List (Nat × Call))
    (hlive : LTS.AllSteps (swapStep C autoSpawnTimeout) (fun x _ => x.swap.state ≠ .processed)
      (committedSwap C autoSpawnTimeout offerId secret now c) is) :
    Accounted (handedReceipts is)
      (LTS.run (swapStep C autoSpawnTimeout)
        (committedSwap C autoSpawnTimeout offerId secret now c) is).swap
      (refunds (LTS.run (swapStep C autoSpawnTimeout)
        (committedSwap C autoSpawnTimeout offerId secret now c) is).out) ↔
    (∃ a, sender C c = .ok a) ∨ handedReceipts is = [] := by
  cases hc : sender C c with
  | ok a => exact iff_of_true (accounted_of_recoverable hc is hlive) (.inl ⟨a, rfl⟩)
  | error err =>
    obtain ⟨hd, hs, hr⟩ := no_refund_of_unrecoverable autoSpawnTimeout offerId secret
      now hc is
    rw [hr, accounted_nil_iff hd hs]
    simp

def commitmentOf (signature : Option Signature) : Commitment where
  offerId := 7
  offerHash := 0
  timeout := 1000
  amount := 10
  signature := signature

def depositOf (initiator : Address) : TransferReceipt where
  initiator := initiator
  amount := 10
  identifier := 7
  timestamp := 0

def executionOf (signature : Signature) : SwapExecution where
  offerId := 7
  timestamp := 0
  signature := some signature

/-- Maker `1` trades with taker `2`; `3` transfers without a commitment. -/
def tradeCalls : List (Nat × Call) :=
  [(0, .transferReceipt (depositOf 1)), (0, .takerCommitment (commitmentOf (some 2))),
    (0, .transferReceipt (depositOf 3)), (0, .transferReceipt (depositOf 2)),
    (0, .swapExecution (executionOf 1)), (0, .swapExecution (executionOf 2))]

theorem trade_accounted :
    Accounted (handedReceipts tradeCalls)
      (LTS.run (swapStep .plain true)
        (committedSwap .plain true 7 0 0 (commitmentOf (some 1))) tradeCalls).swap
      (refunds (LTS.run (swapStep .plain true)
        (committedSwap .plain true 7 0 0 (commitmentOf (some 1))) tradeCalls).out) :=
  (deposits_accounted_iff .plain true 7 0 0 (commitmentOf (some 1)) tradeCalls
    (by decide +kernel)).mpr (.inl ⟨1, by decide +kernel⟩)

/-- A transfer to a swap whose maker commitment is not signed raises, and is gone. -/
theorem unsigned_maker_transfer_lost :
    LTS.AllSteps (swapStep .plain true) (fun x _ => x.swap.state ≠ .processed)
      (committedSwap .plain true 7 0 0 (commitmentOf none)) [(0, .transferReceipt (depositOf 1))] ∧
    ¬ Accounted (handedReceipts [(0, .transferReceipt (depositOf 1))])
      (LTS.run (swapStep .plain true) (committedSwap .plain true 7 0 0 (commitmentOf none))
        [(0, .transferReceipt (depositOf 1))]).swap
      (refunds (LTS.run (swapStep .plain true)
        (committedSwap .plain true 7 0 0 (commitmentOf none))
        [(0, .transferReceipt (depositOf 1))]).out) := by
  refine ⟨by decide +kernel, ?_⟩
  have hout : refunds (LTS.run (swapStep .plain true)
      (committedSwap .plain true 7 0 0 (commitmentOf none))
      [(0, .transferReceipt (depositOf 1))]).out = [] := by decide +kernel
  rw [hout, accounted_nil_iff (by decide +kernel) (by decide +kernel)]
  decide +kernel

end CommitmentService
end Raidex
