import Mathlib.Algebra.Order.Field.Rat
import Mathlib.Tactic.Linarith
import Raidex.CommitmentService.Deposits
import Raidex.CommitmentService.RefundTask

/-!
# Raidex.CommitmentService.Solvency

The commitment service and its `RefundTask` together: what is paid, owed and received.

* `Treasury`: the service and the pipeline that its swaps fill.
* `dueTo_le`: a refund is for no more than its transfer.
* `places_subperm`: no refund is in two places, whatever raises.
* `service_solvent`: what was paid, what is still to be paid and what is held for somebody is no
  more than what was received from them.
-/

namespace Raidex
namespace CommitmentService

open scoped List

structure Treasury where
  service : Service
  pipeline : Pipeline

def Treasury.init : Treasury where
  service := .init
  pipeline := .init

/-- An input of the service, or a step of `RefundTask`, of a transfer or of a greenlet that waits
for one. -/
inductive TreasuryInput where
  | serve (i : ServiceInput)
  | process (k : Nat)
  | finish (j : Nat) (result : TransferResult)
  | getAndRequeue (j : Nat)

/-- `_queue_refund` of the factory, for each refund. -/
def Pipeline.queueRefunds (task : RefundTask) (s : Pipeline) (rs : List Refund) : Pipeline :=
  LTS.run (pipelineStep task) s (rs.map .queueRefund)

section

variable (C : Crypto) (task : RefundTask)

def treasuryStep (g : Treasury) : TreasuryInput → Treasury
  | .serve i =>
    let service := serviceStep C g.service i
    { service := service
      pipeline := g.pipeline.queueRefunds task
        (service.refundQueue.drop g.service.refundQueue.length) }
  | .process k => { g with pipeline := pipelineStep task g.pipeline (.process k) }
  | .finish j result => { g with pipeline := pipelineStep task g.pipeline (.finish j result) }
  | .getAndRequeue j => { g with pipeline := pipelineStep task g.pipeline (.getAndRequeue j) }

def treasuryRun (is : List TreasuryInput) : Treasury := LTS.run (treasuryStep C task) .init is

end

/-! ## Amounts -/

/-- The initiators and identifiers that an amount is counted for. -/
abbrev Accounts := Address → Nat → Bool

def TransferReceipt.amountOf (who : Accounts) (r : TransferReceipt) : Int :=
  if who r.initiator r.identifier then r.amount else 0

def PaymentRequest.amountOf (who : Accounts) (q : PaymentRequest) : Int :=
  if who q.target q.identifier then q.amount else 0

/-- What the payment for a refund asks for. -/
def RefundTask.dueTo (task : RefundTask) (who : Accounts) (r : Refund) : Int :=
  (task.transferArgs r).request.amountOf who

/-- The requests of the transfers that ended with status 200. -/
def Pipeline.payments (s : Pipeline) : List PaymentRequest :=
  (s.transfers.filter fun t => t.result = some .success).map Transfer.request

def Pipeline.paidTo (s : Pipeline) (who : Accounts) : Int :=
  (s.payments.map (PaymentRequest.amountOf who)).sum

/-- The refunds that are in the queue or in flight. -/
def Pipeline.owed (s : Pipeline) : List Refund :=
  (s.refundQueue ++ s.transfers.flatMap Transfer.inFlight).filterMap (s.refunds[·]?)

def Pipeline.owedTo (task : RefundTask) (s : Pipeline) (who : Accounts) : Int :=
  (s.owed.map (task.dueTo who)).sum

/-- The deposits of the swaps that are not settled. -/
def Service.heldFor (s : Service) (who : Accounts) : Int :=
  (s.held.map (TransferReceipt.amountOf who)).sum

def TreasuryInput.served : TreasuryInput → Option ServiceInput
  | .serve i => some i
  | _ => none

/-- The transfers that the service has processed. -/
def transfersReceived (is : List TreasuryInput) : List TransferReceipt :=
  processedReceipts (is.filterMap TreasuryInput.served)

def receivedFrom (is : List TreasuryInput) (who : Accounts) : Int :=
  ((transfersReceived is).map (TransferReceipt.amountOf who)).sum

/-! ## A refund is for no more than its transfer -/

section

variable {task : RefundTask} {who : Accounts}

theorem truncate_le {q : ℚ} {n : ℕ} (h : q ≤ n) : truncate q ≤ n := by
  have hden : (0 : Int) < q.den := Int.natCast_pos.mpr q.den_pos
  unfold truncate
  rcases le_or_gt 0 q.num with hnum | hnum
  · rw [Int.tdiv_eq_ediv_of_nonneg hnum]
    apply Int.ediv_le_of_le_mul hden
    have hle : (q.num : ℚ) ≤ n * q.den := by
      rw [← div_le_iff₀ (Nat.cast_pos.mpr q.den_pos), Rat.num_div_den]
      exact h
    exact_mod_cast hle
  · have hneg : q.num.tdiv q.den ≤ 0 := by
      rw [← Int.neg_nonneg, ← Int.neg_tdiv]
      exact Int.tdiv_nonneg (by omega) hden.le
    omega

theorem amountDue_le (hfee : ∀ f ∈ task.feeRate, 0 ≤ f) (r : Refund) :
    amountDue task.feeRate r ≤ r.receipt.amount := by
  have hamount : (0 : ℚ) ≤ r.receipt.amount := Nat.cast_nonneg _
  have hrate : 0 ≤ task.feeRate.getD 0 := by
    cases hf : task.feeRate with
    | none => exact le_rfl
    | some f => exact hfee f hf
  unfold amountDue
  split
  · nlinarith
  · exact le_rfl

theorem dueTo_le (hfee : ∀ f ∈ task.feeRate, 0 ≤ f) (r : Refund) :
    task.dueTo who r ≤ r.receipt.amountOf who := by
  have hle : truncate (task.amount r) ≤ r.receipt.amount := by
    apply truncate_le
    rw [task.amount_eq]
    exact amountDue_le hfee r
  unfold RefundTask.dueTo PaymentRequest.amountOf TransferReceipt.amountOf
  show (if who r.receipt.initiator r.receipt.identifier then truncate (task.amount r) else 0) ≤ _
  split
  · exact hle
  · exact le_rfl

theorem amountOf_nonneg (r : TransferReceipt) : 0 ≤ r.amountOf who := by
  unfold TransferReceipt.amountOf
  split
  · exact Int.natCast_nonneg _
  · exact le_rfl

end

/-! ## No refund is in two places -/

section

variable {task : RefundTask} {s s' : Pipeline} {i : PipelineInput} {t t' : Transfer}

/-- Exchanging a transfer for one in no more places. -/
theorem places_set_subperm {j : Nat} (h : s.transfers[j]? = some t) {queue : List Nat}
    (hmove : queue ++ (t'.inFlight ++ t'.paid) <+~ s.refundQueue ++ (t.inFlight ++ t.paid)) :
    Pipeline.places { s with refundQueue := queue, transfers := s.transfers.set j t' } <+~
      s.places := by
  have hset := places_set h t' queue
  rw [List.perm_iff_count] at hset
  rw [List.subperm_iff_count] at hmove ⊢
  intro i
  have h₁ := hset i
  have h₂ := hmove i
  simp only [List.count_append] at h₁ h₂ ⊢
  omega

theorem Pipeline.Step.places_subperm (h : s.Sound task) (hstep : Pipeline.Step task s i s')
    (hplaced : s.places <+~ List.range s.refunds.length) :
    s'.places <+~ List.range s'.refunds.length := by
  cases hstep with
  | @queued r =>
    have hlen : (s.refunds ++ [r]).length = s.refunds.length + 1 := List.length_append
    simp only [hlen, List.range_succ]
    rw [List.subperm_iff_count] at hplaced ⊢
    intro i
    have := hplaced i
    simp only [Pipeline.places, List.count_append] at this ⊢
    omega
  | @processed k i r hk hi hnext =>
    refine List.Subperm.trans ?_ hplaced
    have hqueue : i :: s.refundQueue.eraseIdx k ~ s.refundQueue := by
      obtain ⟨hlt, rfl⟩ := List.getElem?_eq_some_iff.mp hk
      exact List.getElem_cons_eraseIdx_perm hlt
    have hflight : (task.transferAsync i r).inFlight = [i] := rfl
    have hpaid : (task.transferAsync i r).paid = [] := rfl
    rw [List.perm_iff_count] at hqueue
    rw [List.subperm_iff_count]
    intro i'
    have := hqueue i'
    simp only [Pipeline.places, List.flatMap_append, List.flatMap_singleton, hflight, hpaid,
      List.count_append, List.count_cons, List.count_nil] at this ⊢
    omega
  | @finished j t result hj hr =>
    refine (places_set_subperm hj (List.Perm.subperm (List.Perm.append_left _ ?_))).trans hplaced
    have hw := h.waiting t (List.mem_of_getElem? hj) hr
    by_cases hs : result = .success
    · simp [Transfer.inFlight, Transfer.paid, hr, hw, hs]
    · simp [Transfer.inFlight, Transfer.paid, hr, hw, hs]
  | succeeded hj hw hr =>
    refine (places_set_subperm hj (List.Perm.subperm (List.Perm.append_left _ ?_))).trans hplaced
    simp [Transfer.inFlight, Transfer.paid, hr]
  | requeued hj hw hr hcode =>
    refine (places_set_subperm hj (List.Perm.subperm ?_)).trans hplaced
    simp [Transfer.inFlight, Transfer.paid, hr, hw, hcode, TransferResult.success]
  | raised hj hw hr =>
    -- the refund is in no place any more
    refine (places_set_subperm hj (List.Sublist.subperm (List.Sublist.append_left ?_ _))).trans
      hplaced
    simp [Transfer.inFlight, Transfer.paid, hr, TransferResult.success]
  | idle _ => exact hplaced

theorem Pipeline.Step.refunds_eq (hstep : Pipeline.Step task s i s')
    (hi : ∀ r, i ≠ .queueRefund r) : s'.refunds = s.refunds := by
  cases hstep with
  | queued => exact absurd rfl (hi _)
  | _ => rfl

end

/-! ## The two parts -/

section

variable {C : Crypto} {task : RefundTask} {h : List TreasuryInput} {g : Treasury}

/-- What the service has at its places came in. -/
theorem Served.places_subperm {s s' : Service} {input : ServiceInput} {err : Option PyError}
    (hs : Registry C s) (hserved : Served C s input s' err) :
    s'.places <+~ s.places ++ input.event.receipt.toList := by
  by_cases hexp : ∀ r, input.event.receipt = some r → Expected C s r
  · exact (hserved.places hs hexp).symm.subperm
  · simp only [not_forall] at hexp
    obtain ⟨r, hr, hexp⟩ := hexp
    rw [hserved.places_lost hs hr hexp]
    exact (List.sublist_append_left _ _).subperm

theorem Served.refundQueue_prefix {s s' : Service} {input : ServiceInput} {err : Option PyError}
    (hserved : Served C s input s' err) : s.refundQueue <+: s'.refundQueue := by
  have htaken : (s.taken input.event).refundQueue = s.refundQueue := by
    cases input.event <;> rfl
  cases hserved with
  | called _ _ _ =>
    rw [Service.afterCall, htaken]
    exact List.prefix_append _ _
  | created _ _ => exact List.prefix_rfl
  | ignored _ _ => exact htaken.symm ▸ List.prefix_rfl

variable (C task h) in
/-- The refunds of the pipeline are those the swaps queued, and neither part has more than what
it was given. -/
structure Treasury.Sound (g : Treasury) : Prop where
  registry : Registry C g.service
  pipeline : g.pipeline.Sound task
  refunds : g.pipeline.refunds = g.service.refundQueue
  received : g.service.places <+~ transfersReceived h
  placed : g.pipeline.places <+~ List.range g.pipeline.refunds.length

theorem Treasury.Sound.init : Treasury.Sound C task [] .init where
  registry := .init
  pipeline := ⟨by simp [Treasury.init, Pipeline.init], by simp [Treasury.init, Pipeline.init]⟩
  refunds := rfl
  received := .refl _
  placed := .refl _

theorem queueRefunds_sound (rs : List Refund) {s : Pipeline} (hsound : s.Sound task)
    (hplaced : s.places <+~ List.range s.refunds.length) :
    (s.queueRefunds task rs).Sound task ∧
      (s.queueRefunds task rs).refunds = s.refunds ++ rs ∧
      (s.queueRefunds task rs).places <+~ List.range (s.queueRefunds task rs).refunds.length := by
  induction rs generalizing s with
  | nil => exact ⟨hsound, (List.append_nil _).symm, hplaced⟩
  | cons r rs ih =>
    have hstep := pipelineStep_step task s (.queueRefund r)
    have htail := ih (hsound.step hstep) (hstep.places_subperm hsound hplaced)
    have hcons : (pipelineStep task s (.queueRefund r)).refunds ++ rs = s.refunds ++ r :: rs :=
      List.append_assoc _ _ _
    rw [hcons] at htail
    exact htail

theorem transfersReceived_concat (h : List TreasuryInput) (i : TreasuryInput) :
    transfersReceived (h ++ [i]) = transfersReceived h ++ (transfersReceived [i]) := by
  rw [transfersReceived, transfersReceived, transfersReceived, List.filterMap_append,
    processedReceipts, processedReceipts, processedReceipts, List.filterMap_append]

theorem Treasury.Sound.serve (hg : g.Sound C task h) (i : ServiceInput) :
    (treasuryStep C task g (.serve i)).Sound C task (h ++ [.serve i]) := by
  obtain ⟨s', err, hserved, hrun⟩ := served hg.registry i
  have hstep : serviceStep C g.service i = s' := by
    rw [serviceStep, hrun, EStateM.Result.state_of]
  obtain ⟨rs, hrs⟩ := hserved.refundQueue_prefix
  have hdrop : s'.refundQueue.drop g.service.refundQueue.length = rs := by
    rw [← hrs]; exact List.drop_left
  obtain ⟨hsound, hrefunds, hplaced⟩ := queueRefunds_sound rs hg.pipeline hg.placed
  have hreceipt : transfersReceived [.serve i] = i.event.receipt.toList := by
    exact processedReceipts_concat [] i
  simp only [treasuryStep, hstep, hdrop]
  refine ⟨hg.registry.served hserved, hsound, ?_, ?_, hplaced⟩
  · rw [hrefunds, hg.refunds, hrs]
  · rw [transfersReceived_concat, hreceipt]
    exact (hserved.places_subperm hg.registry).trans
      ((List.subperm_append_right _).mpr hg.received)

/-- A step of `RefundTask` is none of the service. -/
theorem Treasury.Sound.refund (hg : g.Sound C task h) {i : TreasuryInput}
    (hi : transfersReceived [i] = []) {j : PipelineInput} (hj : ∀ r, j ≠ .queueRefund r) :
    Treasury.Sound C task (h ++ [i]) { g with pipeline := pipelineStep task g.pipeline j } := by
  have hstep := pipelineStep_step task g.pipeline j
  refine ⟨hg.registry, hg.pipeline.step hstep, ?_, ?_, hstep.places_subperm hg.pipeline hg.placed⟩
  · exact (hstep.refunds_eq hj).trans hg.refunds
  · rw [transfersReceived_concat, hi, List.append_nil]
    exact hg.received

theorem treasury_sound (C : Crypto) (task : RefundTask) (is : List TreasuryInput) :
    (treasuryRun C task is).Sound C task is := by
  refine LTS.run_invariant (treasuryStep C task) (fun h g => Treasury.Sound C task h g) .init ?_ is
  intro h g i hg
  cases i with
  | serve i => exact hg.serve i
  | process k => exact hg.refund rfl (fun r hr => by cases hr)
  | finish j result => exact hg.refund rfl (fun r hr => by cases hr)
  | getAndRequeue j => exact hg.refund rfl (fun r hr => by cases hr)

/-! ## Sums over the places -/

/-- What the refund in place `i` was queued for. -/
def Pipeline.amountAt (s : Pipeline) (who : Accounts) (i : Nat) : Int :=
  (s.refunds[i]?.map fun r => r.receipt.amountOf who).getD 0

variable {s : Pipeline} {who : Accounts}

theorem amountAt_nonneg (i : Nat) : 0 ≤ s.amountAt who i := by
  unfold Pipeline.amountAt
  cases s.refunds[i]? with
  | none => exact le_rfl
  | some r => exact amountOf_nonneg r.receipt

theorem amountAt_range :
    ((List.range s.refunds.length).map (s.amountAt who)).sum =
      (s.refunds.map fun r => r.receipt.amountOf who).sum := by
  congr 1
  refine List.ext_getElem (by simp) ?_
  intro i h₁ h₂
  have hi : i < s.refunds.length := by simpa using h₂
  simp [Pipeline.amountAt, hi]

theorem paid_le (hfee : ∀ f ∈ task.feeRate, 0 ≤ f) (hs : s.Sound task) :
    s.paidTo who ≤ ((s.transfers.flatMap Transfer.paid).map (s.amountAt who)).sum := by
  have hall := hs.requests
  unfold Pipeline.paidTo Pipeline.payments
  generalize s.transfers = ts at hall
  induction ts with
  | nil => exact le_rfl
  | cons t ts ih =>
    have htail := ih fun u hu => hall u (List.mem_cons_of_mem t hu)
    by_cases ht : t.result = some .success
    · obtain ⟨r, hr, hrequest⟩ := hall t List.mem_cons_self
      have hle : t.request.amountOf who ≤ s.amountAt who t.refund := by
        rw [hrequest, Pipeline.amountAt, hr]
        exact dueTo_le hfee r
      rw [List.filter_cons_of_pos (by simpa using ht), List.flatMap_cons, Transfer.paid, if_pos ht]
      simp only [List.map_cons, List.sum_cons, List.singleton_append]
      exact add_le_add hle htail
    · rw [List.filter_cons_of_neg (by simpa using ht), List.flatMap_cons, Transfer.paid, if_neg ht,
        List.nil_append]
      exact htail

theorem owed_le (hfee : ∀ f ∈ task.feeRate, 0 ≤ f) :
    s.owedTo task who ≤
      ((s.refundQueue ++ s.transfers.flatMap Transfer.inFlight).map (s.amountAt who)).sum := by
  unfold Pipeline.owedTo Pipeline.owed
  generalize s.refundQueue ++ s.transfers.flatMap Transfer.inFlight = is
  induction is with
  | nil => exact le_rfl
  | cons i is ih =>
    rw [List.map_cons, List.sum_cons]
    cases hr : s.refunds[i]? with
    | none =>
      rw [List.filterMap_cons_none hr]
      exact ih.trans (le_add_of_nonneg_left (amountAt_nonneg i))
    | some r =>
      rw [List.filterMap_cons_some hr, List.map_cons, List.sum_cons]
      have hle : task.dueTo who r ≤ s.amountAt who i := by
        rw [Pipeline.amountAt, hr]
        exact dueTo_le hfee r
      exact add_le_add hle ih

/-- Paid and owed together are no more than what the refunds were queued for. -/
theorem paid_owed_le (hfee : ∀ f ∈ task.feeRate, 0 ≤ f) (hs : s.Sound task)
    (hplaced : s.places <+~ List.range s.refunds.length) :
    s.paidTo who + s.owedTo task who ≤ (s.refunds.map fun r => r.receipt.amountOf who).sum := by
  have hsum := hplaced.sum_map_le (f := s.amountAt who) fun i _ => amountAt_nonneg i
  rw [amountAt_range, Pipeline.places, ← List.append_assoc, List.map_append, List.sum_append]
    at hsum
  have hpaid : s.paidTo who ≤ _ := paid_le hfee hs
  have howed : s.owedTo task who ≤ _ := owed_le hfee
  linarith

/-- In every order of transfers, commitments, executions, timeouts, refunds and responses, with
every exception a swap or a transfer raises: what was paid to anybody for an offer, what is
still to be paid and what is held for them is no more than what they transferred for it. -/
theorem service_solvent (C : Crypto) (task : RefundTask) (hfee : ∀ f ∈ task.feeRate, 0 ≤ f)
    (is : List TreasuryInput) (who : Accounts) :
    (treasuryRun C task is).pipeline.paidTo who +
        (treasuryRun C task is).pipeline.owedTo task who +
        (treasuryRun C task is).service.heldFor who ≤ receivedFrom is who := by
  have hg := treasury_sound C task is
  generalize treasuryRun C task is = g at hg ⊢
  have hpaid : g.pipeline.paidTo who + g.pipeline.owedTo task who ≤ _ :=
    paid_owed_le hfee hg.pipeline hg.placed
  have hplaces : g.service.held ++ g.service.queued <+~ transfersReceived is := by
    refine ((List.sublist_append_left _ g.service.forfeited).subperm.trans ?_).trans hg.received
    exact hg.registry.places_perm.subperm
  have hsum := hplaces.sum_map_le (f := TransferReceipt.amountOf who) fun r _ => amountOf_nonneg r
  have hqueued : (g.service.queued.map (TransferReceipt.amountOf who)).sum =
      (g.pipeline.refunds.map fun r => r.receipt.amountOf who).sum := by
    rw [hg.refunds, Service.queued, List.map_map]
    rfl
  rw [List.map_append, List.sum_append, hqueued] at hsum
  unfold Service.heldFor receivedFrom
  linarith

end

/-- Maker `1` and taker `2` trade while `3` transfers without a commitment. The refund of `3`
fails and is queued again, the one of `1` succeeds. -/
def tradedTreasury : List TreasuryInput :=
  ([.commitment 0 (commitmentOf (some 1)), .transferReceipt (depositOf 1),
    .commitment 0 (commitmentOf (some 2)), .transferReceipt (depositOf 3),
    .transferReceipt (depositOf 2), .swapExecution (executionOf 1),
    .swapExecution (executionOf 2)].map fun event => .serve { now := 0, event := event }) ++
  [.process 0, .finish 0 (.response 404), .process 0, .getAndRequeue 0, .finish 1 .success]

/-- Of the three deposits of `10` the maker was paid `9`, and `19` are still due to the others. -/
theorem traded_treasury_solvent :
    ((treasuryRun .plain tenthFee tradedTreasury).pipeline.paidTo (fun _ _ => true) = 9 ∧
      (treasuryRun .plain tenthFee tradedTreasury).pipeline.owedTo tenthFee (fun _ _ => true) =
        19 ∧ receivedFrom tradedTreasury (fun _ _ => true) = 30) ∧
    (treasuryRun .plain tenthFee tradedTreasury).pipeline.paidTo (fun _ _ => true) +
        (treasuryRun .plain tenthFee tradedTreasury).pipeline.owedTo tenthFee (fun _ _ => true) +
        (treasuryRun .plain tenthFee tradedTreasury).service.heldFor (fun _ _ => true) ≤
      receivedFrom tradedTreasury (fun _ _ => true) :=
  ⟨by decide +kernel,
    service_solvent .plain tenthFee (by simp [tenthFee]) tradedTreasury (fun _ _ => true)⟩

end CommitmentService
end Raidex
