import Mathlib.Data.List.Perm.Basic
import Mathlib.Data.Rat.Defs
import Mathlib.Algebra.Order.Ring.Rat
import Mathlib.Tactic.Ring
import Raidex.Lib.ListUpdate
import Raidex.Lib.Run
import Raidex.CommitmentService.Swap

/-!
# Raidex.CommitmentService.RefundTask

The refund queue, the transfers `RefundTask` spawns for it and the greenlets that wait for them.

A refund is an object, named by its place in `refunds`; a transfer is named by its place in
`transfers`. Fee rates and amounts are rational numbers: the arithmetic is exact.

* `Pipeline`: the state; `Transfer`: an attempt, with the greenlet that waits for its result.
* `RefundPlaced`: every refund is in one place and every attempt posts what is due.
* `refunds_placed_iff`: it holds at every moment exactly when no greenlet waits for a transfer
  that raises and every fee that is claimed is a whole number.
-/

namespace Raidex
namespace CommitmentService

open scoped List

/-- The arguments of `TraderClient.transfer`. -/
structure TransferArgs where
  tokenAddress : Address
  targetAddress : Address
  amount : ℚ
  identifier : Nat
  deriving DecidableEq

/-- What `TraderClient.transfer` posts: the path of the payment and its body. -/
structure PaymentRequest where
  token : Address
  target : Address
  amount : Int
  identifier : Nat
  deriving DecidableEq

/-- `int(amount)`: rounds towards zero. -/
def truncate (amount : ℚ) : Int := amount.num.tdiv amount.den

def TransferArgs.request (args : TransferArgs) : PaymentRequest where
  token := args.tokenAddress
  target := args.targetAddress
  amount := truncate args.amount
  identifier := args.identifier

/-- How the transfer ends: with the response to its request, or an exception. -/
inductive TransferResult where
  | response (statusCode : Nat)
  | exception
  deriving DecidableEq

def TransferResult.success : TransferResult := .response 200

/-- A call of `transfer_async`, and the greenlet `get_and_requeue` that waits for its result. -/
structure Transfer where
  refund : Nat
  args : TransferArgs
  request : PaymentRequest
  result : Option TransferResult
  waiting : Bool
  deriving DecidableEq

structure Pipeline where
  refunds : List Refund
  refundQueue : List Nat
  transfers : List Transfer
  deriving DecidableEq

def Pipeline.init : Pipeline where
  refunds := []
  refundQueue := []
  transfers := []

/-- `RefundTask`, with its fee rate, if it has one. -/
structure RefundTask where
  commitmentTokenAddress : Address
  feeRate : Option ℚ

namespace RefundTask

variable (task : RefundTask)

def amount (r : Refund) : ℚ :=
  let amount : ℚ := r.receipt.amount
  match task.feeRate with
  | some feeRate => if r.claimFee then amount - amount * feeRate else amount
  | none => amount

def transferArgs (r : Refund) : TransferArgs where
  tokenAddress := task.commitmentTokenAddress
  targetAddress := r.receipt.initiator
  amount := task.amount r
  identifier := r.receipt.identifier

/-- The attempt that `process` spawns for refund `i`. -/
def transferAsync (i : Nat) (r : Refund) : Transfer where
  refund := i
  args := task.transferArgs r
  request := (task.transferArgs r).request
  result := none
  waiting := true

end RefundTask

/-- `i` may come out of the priority queue next: no other refund has a greater priority. -/
def Pipeline.IsNext (s : Pipeline) (r : Refund) : Prop :=
  ∀ j ∈ s.refundQueue, ∀ r' ∈ s.refunds[j]?, r'.priority ≤ r.priority

instance (s : Pipeline) (r : Refund) : Decidable (s.IsNext r) :=
  inferInstanceAs (Decidable (∀ j ∈ s.refundQueue, ∀ r' ∈ s.refunds[j]?, r'.priority ≤ r.priority))

/-- What happens next. The place of the refund that leaves the queue is part of the input: the
heap decides between equal priorities. -/
inductive PipelineInput where
  | queueRefund (r : Refund)
  | process (k : Nat)
  | finish (j : Nat) (result : TransferResult)
  | getAndRequeue (j : Nat)
  deriving DecidableEq

def pipelineStep (task : RefundTask) (s : Pipeline) : PipelineInput → Pipeline
  | .queueRefund r =>
    { s with refunds := s.refunds ++ [r], refundQueue := s.refundQueue ++ [s.refunds.length] }
  | .process k =>
    match s.refundQueue[k]? with
    | none => s
    | some i =>
      match s.refunds[i]? with
      | none => s
      | some r =>
        if s.IsNext r then
          { s with
            refundQueue := s.refundQueue.eraseIdx k
            transfers := s.transfers ++ [task.transferAsync i r] }
        else s
  | .finish j result =>
    match s.transfers[j]? with
    | none => s
    | some t =>
      if t.result = none then
        { s with transfers := s.transfers.set j { t with result := some result } }
      else s
  | .getAndRequeue j =>
    match s.transfers[j]? with
    | none => s
    | some t =>
      match t.result, t.waiting with
      | some (.response statusCode), true =>
        { s with
          refundQueue := if statusCode = 200 then s.refundQueue else s.refundQueue ++ [t.refund]
          transfers := s.transfers.set j { t with waiting := false } }
      | some .exception, true =>
        -- the greenlet ends with the exception
        { s with transfers := s.transfers.set j { t with waiting := false } }
      | _, _ => s

def pipelineRun (task : RefundTask) (is : List PipelineInput) : Pipeline :=
  LTS.run (pipelineStep task) .init is

/-! ## The places of the refunds -/

/-- A transfer is in flight until its greenlet has its result; a successful one has paid. -/
def Transfer.inFlight (t : Transfer) : List Nat :=
  if t.waiting = true ∧ t.result ≠ some .success then [t.refund] else []

def Transfer.paid (t : Transfer) : List Nat := if t.result = some .success then [t.refund] else []

def Pipeline.places (s : Pipeline) : List Nat :=
  s.refundQueue ++ (s.transfers.flatMap Transfer.inFlight ++ s.transfers.flatMap Transfer.paid)

/-- What is due for a refund: its amount, less the fee when it is to be claimed. -/
def amountDue (feeRate : Option ℚ) (r : Refund) : ℚ :=
  if r.claimFee then r.receipt.amount * (1 - feeRate.getD 0) else r.receipt.amount

/-- What every attempt for `r` posts. -/
structure Attempts (task : RefundTask) (r : Refund) (t : Transfer) : Prop where
  token : t.request.token = task.commitmentTokenAddress
  target : t.request.target = r.receipt.initiator
  amount : t.request.amount = amountDue task.feeRate r
  identifier : t.request.identifier = r.receipt.identifier

/-- Every refund is in the queue, in flight or paid, once; and every attempt posts what is
due. -/
structure RefundPlaced (task : RefundTask) (s : Pipeline) : Prop where
  placed : s.places ~ List.range s.refunds.length
  attempts : ∀ t ∈ s.transfers, ∃ r, s.refunds[t.refund]? = some r ∧ Attempts task r t

/-- A greenlet that waits for transfer `j` would get its exception. -/
def Pipeline.Raised (s : Pipeline) (j : Nat) : Prop :=
  ∃ t ∈ s.transfers[j]?, t.result = some .exception ∧ t.waiting = true

instance (s : Pipeline) (j : Nat) : Decidable (s.Raised j) :=
  inferInstanceAs
    (Decidable (∃ t ∈ s.transfers[j]?, t.result = some .exception ∧ t.waiting = true))

/-- The refund that leaves the queue. -/
def Pipeline.dequeued (s : Pipeline) : PipelineInput → Option Refund
  | .process k => s.refundQueue[k]?.bind fun i => s.refunds[i]?.filter fun r => s.IsNext r
  | .queueRefund _ | .finish _ _ | .getAndRequeue _ => none

/-- The fee is a whole number, if it is to be claimed. -/
def Refund.WholeFee (feeRate : Option ℚ) (r : Refund) : Prop :=
  r.claimFee = true → ∃ n : ℤ, r.receipt.amount * feeRate.getD 0 = n

/-- No waiting greenlet gets an exception, and the refund that is processed has a whole fee. -/
structure Pipeline.Pays (task : RefundTask) (s : Pipeline) (i : PipelineInput) : Prop where
  answered : ∀ j, i = .getAndRequeue j → ¬ s.Raised j
  whole : ∀ r ∈ s.dequeued i, r.WholeFee task.feeRate

/-! ## One step -/

/-- What a step does, one constructor for each way it can go. -/
inductive Pipeline.Step (task : RefundTask) (s : Pipeline) : PipelineInput → Pipeline → Prop
  | queued {r} : Step task s (.queueRefund r)
      { s with refunds := s.refunds ++ [r], refundQueue := s.refundQueue ++ [s.refunds.length] }
  | processed {k i r} : s.refundQueue[k]? = some i → s.refunds[i]? = some r → s.IsNext r →
      Step task s (.process k)
        { s with refundQueue := s.refundQueue.eraseIdx k
                 transfers := s.transfers ++ [task.transferAsync i r] }
  | finished {j t result} : s.transfers[j]? = some t → t.result = none →
      Step task s (.finish j result)
        { s with transfers := s.transfers.set j { t with result := some result } }
  | succeeded {j t} : s.transfers[j]? = some t → t.waiting = true → t.result = some .success →
      Step task s (.getAndRequeue j)
        { s with transfers := s.transfers.set j { t with waiting := false } }
  | requeued {j t statusCode} : s.transfers[j]? = some t → t.waiting = true →
      t.result = some (.response statusCode) → statusCode ≠ 200 →
      Step task s (.getAndRequeue j)
        { s with refundQueue := s.refundQueue ++ [t.refund]
                 transfers := s.transfers.set j { t with waiting := false } }
  | raised {j t} : s.transfers[j]? = some t → t.waiting = true → t.result = some .exception →
      Step task s (.getAndRequeue j)
        { s with transfers := s.transfers.set j { t with waiting := false } }
  | idle {i} : (∀ j, i = .getAndRequeue j → ¬ s.Raised j) → Step task s i s

section

variable {task : RefundTask} {s s' : Pipeline} {i : PipelineInput} {t t' : Transfer}

theorem pipelineStep_step (task : RefundTask) (s : Pipeline) (i : PipelineInput) :
    Pipeline.Step task s i (pipelineStep task s i) := by
  cases i with
  | queueRefund r => exact .queued
  | process k =>
    simp only [pipelineStep]
    cases hk : s.refundQueue[k]? with
    | none => exact .idle nofun
    | some i =>
      cases hi : s.refunds[i]? with
      | none => simp only [hi]; exact .idle nofun
      | some r =>
        by_cases hnext : s.IsNext r
        · simp only [hi, hnext, if_true]; exact .processed hk hi hnext
        · simp only [hi, hnext, if_false]; exact .idle nofun
  | finish j result =>
    simp only [pipelineStep]
    cases hj : s.transfers[j]? with
    | none => exact .idle nofun
    | some t =>
      by_cases hr : t.result = none
      · simp only [hr, if_true]; exact .finished hj hr
      · simp only [hr, if_false]; exact .idle nofun
  | getAndRequeue j =>
    simp only [pipelineStep]
    have hidle (h : ¬ s.Raised j) : Pipeline.Step task s (.getAndRequeue j) s :=
      .idle fun j' hj' => by cases hj'; exact h
    cases hj : s.transfers[j]? with
    | none => exact hidle (by simp [Pipeline.Raised, hj])
    | some t =>
      obtain ⟨refund, args, request, result, waiting⟩ := t
      cases waiting with
      | false =>
        have hnot : ¬ s.Raised j := by simp [Pipeline.Raised, hj]
        rcases result with _ | ⟨statusCode⟩ | _ <;> exact hidle hnot
      | true =>
        rcases result with _ | ⟨statusCode⟩ | _
        · exact hidle (by simp [Pipeline.Raised, hj])
        · by_cases hcode : statusCode = 200
          · subst hcode; exact .succeeded hj rfl rfl
          · simp only [hcode, if_false]; exact .requeued hj rfl rfl hcode
        · exact .raised hj rfl rfl

/-! ## What the attempts post -/

theorem RefundTask.amount_eq (task : RefundTask) (r : Refund) :
    task.amount r = amountDue task.feeRate r := by
  unfold RefundTask.amount amountDue
  cases task.feeRate with
  | none => simp
  | some feeRate =>
    by_cases h : r.claimFee = true
    · simp only [h, if_true, Option.getD_some]; ring
    · simp only [h, if_false, Bool.false_eq_true]

theorem truncate_intCast (n : ℤ) : truncate n = n := by
  simp [truncate]

theorem wholeFee_iff (task : RefundTask) (r : Refund) :
    r.WholeFee task.feeRate ↔ ∃ n : ℤ, amountDue task.feeRate r = n := by
  unfold Refund.WholeFee amountDue
  by_cases hclaim : r.claimFee = true
  · simp only [hclaim, if_true, true_implies]
    constructor
    · rintro ⟨n, hn⟩
      exact ⟨r.receipt.amount - n, by push_cast; rw [mul_sub, mul_one, hn]⟩
    · rintro ⟨n, hn⟩
      exact ⟨r.receipt.amount - n, by push_cast; rw [← hn]; ring⟩
  · simp only [hclaim, if_false, Bool.false_eq_true, false_implies, true_iff]
    exact ⟨r.receipt.amount, by push_cast; rfl⟩

/-- What is posted is what is due, exactly when `int` does not cut it. -/
theorem attempts_iff {task : RefundTask} {r : Refund} {t : Transfer}
    (h : t.request = (task.transferArgs r).request) :
    Attempts task r t ↔ r.WholeFee task.feeRate := by
  have hamount : t.request.amount = truncate (amountDue task.feeRate r) := by
    rw [h, ← task.amount_eq r]
    rfl
  rw [wholeFee_iff]
  constructor
  · intro hatt
    exact ⟨t.request.amount, hatt.amount.symm⟩
  · rintro ⟨n, hn⟩
    refine ⟨by rw [h]; rfl, by rw [h]; rfl, ?_, by rw [h]; rfl⟩
    rw [hamount, hn, truncate_intCast]

/-- In every reachable state: a transfer without a result is waited for, and every attempt posts
what `process` asked for. -/
structure Pipeline.Sound (task : RefundTask) (s : Pipeline) : Prop where
  waiting : ∀ t ∈ s.transfers, t.result = none → t.waiting = true
  requests : ∀ t ∈ s.transfers, ∃ r, s.refunds[t.refund]? = some r ∧
    t.request = (task.transferArgs r).request

/-- Setting the result of a transfer, or no longer waiting for it. -/
theorem Pipeline.Sound.set {j : Nat} (h : s.Sound task) (hj : s.transfers[j]? = some t)
    (t' : Transfer) (hrefund : t'.refund = t.refund) (hrequest : t'.request = t.request)
    (hwaiting : t'.result = none → t'.waiting = true) (queue : List Nat) :
    Pipeline.Sound task
      { s with refundQueue := queue, transfers := s.transfers.set j t' } := by
  constructor
  · intro u hu hr
    rcases List.mem_or_eq_of_mem_set hu with hu | rfl
    · exact h.waiting u hu hr
    · exact hwaiting hr
  · intro u hu
    rcases List.mem_or_eq_of_mem_set hu with hu | rfl
    · exact h.requests u hu
    · obtain ⟨r, hr, hargs⟩ := h.requests t (List.mem_of_getElem? hj)
      exact ⟨r, by rw [hrefund]; exact hr, hrequest.trans hargs⟩

theorem Pipeline.Sound.step (h : s.Sound task) (hstep : Pipeline.Step task s i s') :
    s'.Sound task := by
  cases hstep with
  | @queued r =>
    refine ⟨h.waiting, ?_⟩
    intro t ht
    obtain ⟨r', hr', hargs⟩ := h.requests t ht
    refine ⟨r', ?_, hargs⟩
    rw [List.getElem?_append_left (List.getElem?_eq_some_iff.mp hr').1]
    exact hr'
  | @processed k i r hk hi hnext =>
    constructor
    · intro t ht hr
      rcases List.mem_append.mp ht with ht | ht
      · exact h.waiting t ht hr
      · obtain rfl := List.mem_singleton.mp ht; rfl
    · intro t ht
      rcases List.mem_append.mp ht with ht | ht
      · exact h.requests t ht
      · obtain rfl := List.mem_singleton.mp ht
        exact ⟨r, hi, rfl⟩
  | @finished j t result hj hr =>
    exact h.set hj { t with result := some result } rfl rfl (fun hn => by cases hn) _
  | @succeeded j t hj hw hr =>
    exact h.set hj { t with waiting := false } rfl rfl (fun hn => by simp [hr] at hn) _
  | @requeued j t _ hj hw hr hcode =>
    exact h.set hj { t with waiting := false } rfl rfl (fun hn => by simp [hr] at hn) _
  | @raised j t hj hw hr =>
    exact h.set hj { t with waiting := false } rfl rfl (fun hn => by simp [hr] at hn) _
  | idle _ => exact h

/-- The refund of an attempt had one before, or is the one that leaves the queue. -/
theorem Pipeline.Step.refund_cases (hstep : Pipeline.Step task s i s') (ht : t ∈ s'.transfers) :
    (∃ u ∈ s.transfers, u.refund = t.refund) ∨
      ∃ r, s.refunds[t.refund]? = some r ∧ s.dequeued i = some r := by
  have hset {j : Nat} {u t' : Transfer} (hj : s.transfers[j]? = some u)
      (ht : t ∈ s.transfers.set j t') (hrefund : u.refund = t'.refund) :
      ∃ u ∈ s.transfers, u.refund = t.refund := by
    rcases List.mem_or_eq_of_mem_set ht with ht | rfl
    · exact ⟨t, ht, rfl⟩
    · exact ⟨u, List.mem_of_getElem? hj, hrefund⟩
  cases hstep with
  | queued => exact .inl ⟨t, ht, rfl⟩
  | @processed k i r hk hi hnext =>
    rcases List.mem_append.mp ht with ht | ht
    · exact .inl ⟨t, ht, rfl⟩
    · obtain rfl := List.mem_singleton.mp ht
      exact .inr ⟨r, hi, by simp [Pipeline.dequeued, hk, hi, hnext]⟩
  | finished hj _ => exact .inl (hset hj ht rfl)
  | succeeded hj _ _ => exact .inl (hset hj ht rfl)
  | requeued hj _ _ _ => exact .inl (hset hj ht rfl)
  | raised hj _ _ => exact .inl (hset hj ht rfl)
  | idle _ => exact .inl ⟨t, ht, rfl⟩

theorem Pipeline.Step.refunds_mono (hstep : Pipeline.Step task s i s') {k : Nat} {r : Refund}
    (hr : s.refunds[k]? = some r) : s'.refunds[k]? = some r := by
  cases hstep with
  | queued =>
    rw [List.getElem?_append_left (List.getElem?_eq_some_iff.mp hr).1]
    exact hr
  | processed | finished | succeeded | requeued | raised | idle => exact hr

/-- An attempt for the refund that leaves the queue posts what is due if the fee is whole, and the
others post what they did. -/
theorem Pipeline.Step.attempts (hstep : Pipeline.Step task s i s') (h : s.Sound task)
    (hs' : s'.Sound task) (hwhole : ∀ r ∈ s.dequeued i, r.WholeFee task.feeRate)
    (hatt : ∀ t ∈ s.transfers, ∃ r, s.refunds[t.refund]? = some r ∧ Attempts task r t) :
    ∀ t ∈ s'.transfers, ∃ r, s'.refunds[t.refund]? = some r ∧ Attempts task r t := by
  intro t ht
  obtain ⟨r, hr, hrequest⟩ := hs'.requests t ht
  refine ⟨r, hr, (attempts_iff hrequest).mpr ?_⟩
  rcases hstep.refund_cases ht with ⟨u, hu, hrefund⟩ | ⟨r', hr', hdequeued⟩
  · obtain ⟨r₀, hr₀, hatt₀⟩ := hatt u hu
    obtain ⟨r₁, hr₁, hrequest₁⟩ := h.requests u hu
    cases hr₀.symm.trans hr₁
    rw [hrefund] at hr₀
    cases hr.symm.trans (hstep.refunds_mono hr₀)
    exact (attempts_iff hrequest₁).mp hatt₀
  · cases hr.symm.trans (hstep.refunds_mono hr')
    exact hwhole r hdequeued

variable (task) in
/-- The refund that leaves the queue gets an attempt. -/
theorem exists_attempt {r : Refund} (h : s.dequeued i = some r) :
    ∃ t ∈ (pipelineStep task s i).transfers,
      (pipelineStep task s i).refunds[t.refund]? = some r ∧
        t.request = (task.transferArgs r).request := by
  cases i with
  | process k =>
    simp only [Pipeline.dequeued, Option.bind_eq_some_iff, Option.filter_eq_some_iff,
      decide_eq_true_eq] at h
    obtain ⟨i, hk, hi, hnext⟩ := h
    refine ⟨task.transferAsync i r, ?_, ?_, rfl⟩
    · simp [pipelineStep, hk, hi, hnext]
    · simp only [pipelineStep, hk, hi, hnext, if_true]
      exact hi
  | queueRefund | finish | getAndRequeue => cases h

/-! ## Every refund is in one place -/

/-- Exchanging transfer `j` exchanges its places. -/
theorem places_set {j : Nat} (h : s.transfers[j]? = some t) (t' : Transfer) (queue : List Nat) :
    Pipeline.places { s with refundQueue := queue, transfers := s.transfers.set j t' } ++
        (s.refundQueue ++ (t.inFlight ++ t.paid)) ~
      s.places ++ (queue ++ (t'.inFlight ++ t'.paid)) := by
  have hflight := List.flatMap_set_perm h t' Transfer.inFlight
  have hpaid := List.flatMap_set_perm h t' Transfer.paid
  rw [List.perm_iff_count] at hflight hpaid ⊢
  intro i
  have h₁ := hflight i
  have h₂ := hpaid i
  simp only [Pipeline.places, List.count_append] at h₁ h₂ ⊢
  omega

/-- A transfer moves from one place to another. -/
theorem places_moved {j : Nat} (h : s.transfers[j]? = some t) {queue : List Nat}
    (hmove : s.refundQueue ++ (t.inFlight ++ t.paid) ~ queue ++ (t'.inFlight ++ t'.paid)) :
    Pipeline.places { s with refundQueue := queue, transfers := s.transfers.set j t' } ~
      s.places :=
  (List.perm_append_right_iff _).mp (((places_set h t' queue).trans (hmove.symm.append_left _)))

theorem Pipeline.Step.places (h : s.Sound task) (hstep : Pipeline.Step task s i s')
    (hplaced : s.places ~ List.range s.refunds.length)
    (hraise : ∀ j, i = .getAndRequeue j → ¬ s.Raised j) :
    s'.places ~ List.range s'.refunds.length := by
  cases hstep with
  | @queued r =>
    have hlen : (s.refunds ++ [r]).length = s.refunds.length + 1 := List.length_append
    simp only [hlen, List.range_succ]
    rw [List.perm_iff_count] at hplaced ⊢
    intro i
    have := hplaced i
    simp only [Pipeline.places, List.count_append] at this ⊢
    omega
  | @processed k i r hk hi hnext =>
    refine List.Perm.trans ?_ hplaced
    have hqueue : i :: s.refundQueue.eraseIdx k ~ s.refundQueue := by
      obtain ⟨hlt, rfl⟩ := List.getElem?_eq_some_iff.mp hk
      exact List.getElem_cons_eraseIdx_perm hlt
    have hflight : (task.transferAsync i r).inFlight = [i] := rfl
    have hpaid : (task.transferAsync i r).paid = [] := rfl
    rw [List.perm_iff_count] at hqueue ⊢
    intro i'
    have := hqueue i'
    simp only [Pipeline.places, List.flatMap_append, List.flatMap_singleton, hflight, hpaid,
      List.count_append, List.count_cons, List.count_nil] at this ⊢
    omega
  | @finished j t result hj hr =>
    refine (places_moved hj (List.Perm.append_left _ ?_)).trans hplaced
    have hw := h.waiting t (List.mem_of_getElem? hj) hr
    by_cases hs : result = .success
    · simp [Transfer.inFlight, Transfer.paid, hr, hw, hs]
    · simp [Transfer.inFlight, Transfer.paid, hr, hw, hs]
  | succeeded hj hw hr =>
    refine (places_moved hj (List.Perm.append_left _ ?_)).trans hplaced
    simp [Transfer.inFlight, Transfer.paid, hr]
  | requeued hj hw hr hcode =>
    refine (places_moved hj ?_).trans hplaced
    simp [Transfer.inFlight, Transfer.paid, hr, hw, hcode, TransferResult.success]
  | raised hj hw hr => exact absurd ⟨_, hj, hr, hw⟩ (hraise _ rfl)
  | idle _ => exact hplaced

/-- The refund of a transfer that raised is in no place any more. -/
theorem Pipeline.Step.places_lost (hstep : Pipeline.Step task s i s') {j : Nat}
    (hi : i = .getAndRequeue j) (hraise : s.Raised j) :
    s'.places.length + 1 = s.places.length ∧ s'.refunds = s.refunds := by
  subst hi
  obtain ⟨u, hu, hresult, hwaiting⟩ := hraise
  cases hstep with
  | @raised j t hj hw hr =>
    refine ⟨?_, rfl⟩
    have hbefore : t.inFlight ++ t.paid = [t.refund] := by
      simp [Transfer.inFlight, Transfer.paid, hr, hw, TransferResult.success]
    have hafter : Transfer.inFlight { t with waiting := false } ++
        Transfer.paid { t with waiting := false } = [] := by
      simp [Transfer.inFlight, Transfer.paid, hr, TransferResult.success]
    have hset := (places_set hj { t with waiting := false } s.refundQueue).length_eq
    rw [hbefore, hafter] at hset
    simp only [List.length_append, List.length_singleton, List.length_nil] at hset
    omega
  | succeeded hj hw hr => rw [hj] at hu; cases hu; rw [hr] at hresult; cases hresult
  | requeued hj hw hr hcode => rw [hj] at hu; cases hu; rw [hr] at hresult; cases hresult
  | idle hno => exact absurd ⟨u, hu, hresult, hwaiting⟩ (hno j rfl)

end

/-- Whatever is queued, in every order of processing, of ends of transfers and of waiting
greenlets: at every moment every refund is in one place and every attempt posts what is due,
exactly when no greenlet waits for a transfer that raised and every fee that is claimed from a
refund that is processed is a whole number. -/
theorem refunds_placed_iff (task : RefundTask) (is : List PipelineInput) :
    (∀ pre, pre <+: is → RefundPlaced task (pipelineRun task pre)) ↔
      LTS.AllSteps (pipelineStep task) (Pipeline.Pays task) .init is := by
  refine LTS.prefixes_iff_allSteps (I := Pipeline.Sound task) (P := fun _ s => RefundPlaced task s)
    ⟨by simp [Pipeline.init], by simp [Pipeline.init]⟩ ?_
    ⟨.refl _, by simp [Pipeline.init]⟩ ?_ ?_ is
  · intro s i hs
    exact hs.step (pipelineStep_step task s i)
  · intro h s i hs hplaced hpays
    have hstep := pipelineStep_step task s i
    exact ⟨hstep.places hs hplaced.placed hpays.answered,
      hstep.attempts hs (hs.step hstep) hpays.whole hplaced.attempts⟩
  · intro h s i hs hplaced hpays hafter
    refine hpays ⟨fun j hi hraise => ?_, fun r hr => ?_⟩
    · -- a refund is in no place any more
      obtain ⟨hlen, hrefunds⟩ := (pipelineStep_step task s i).places_lost hi hraise
      have hbefore := hplaced.placed.length_eq
      have hnow := hafter.placed.length_eq
      rw [List.length_range] at hbefore hnow
      rw [hrefunds] at hnow
      omega
    · obtain ⟨t, ht, hr₁, hrequest⟩ := exists_attempt task hr
      obtain ⟨r', hr₂, hatt⟩ := hafter.attempts t ht
      cases hr₁.symm.trans hr₂
      exact (attempts_iff hrequest).mp hatt

def refundOfTen : Refund where
  receipt := { initiator := 1, amount := 10, identifier := 7, timestamp := 0 }
  priority := 1
  claimFee := false

/-- A refund without fee is processed; the request of its transfer raises. -/
def refusedConnection : List PipelineInput :=
  [.queueRefund refundOfTen, .process 0, .finish 0 .exception, .getAndRequeue 0]

/-- A tenth of a refund of one is claimed. -/
def tenthOfOne : List PipelineInput :=
  [.queueRefund
      { receipt := { initiator := 1, amount := 1, identifier := 7, timestamp := 0 }
        priority := 1, claimFee := true },
    .process 0]

def feeless : RefundTask where
  commitmentTokenAddress := 9
  feeRate := none

def tenthFee : RefundTask where
  commitmentTokenAddress := 9
  feeRate := some (1 / 10)

/-- A refund is neither queued again nor in flight nor paid; and of nine tenths nothing is
posted. -/
theorem refund_lost_or_cut :
    ¬ RefundPlaced feeless (pipelineRun feeless refusedConnection) ∧
    ¬ RefundPlaced tenthFee (pipelineRun tenthFee tenthOfOne) := by
  constructor
  · intro h
    have hlen := h.placed.length_eq
    revert hlen
    decide +kernel
  · intro h
    have hmem : (pipelineRun tenthFee tenthOfOne).transfers[0]? = some
        (tenthFee.transferAsync 0
          { receipt := { initiator := 1, amount := 1, identifier := 7, timestamp := 0 }
            priority := 1, claimFee := true }) := by decide +kernel
    obtain ⟨r, hr, hatt⟩ := h.attempts _ (List.mem_of_getElem? hmem)
    cases hr
    have hamount := hatt.amount
    revert hamount
    decide +kernel

end CommitmentService
end Raidex
