import Raidex.Lib.ListUpdate
import Raidex.CommitmentService.Accounting

/-!
# Raidex.CommitmentService.Settlement

How an engaged swap ends, read off the calls it is handed.

* `BothExecuted`: two executions, one of the maker and one of the taker.
* `untilBoth`: the calls up to the one that completes the two executions.
* `executing_run`: what a run of an executing swap makes of its calls.
* `execution_order_iff`: the executions before the first timeout or cancellation decide the
  swap in any order, and two orders pay out the same exactly when as many transfers come in
  before the swap is traded.
-/

namespace Raidex
namespace CommitmentService

open scoped List

/-! ## The calls -/

/-- A timeout or a cancellation. -/
def Call.aborts (call : Call) : Bool := call.trigger == .timeout

def Call.isExecution : Call → Bool
  | .swapExecution _ => true
  | _ => false

def beforeAbort (calls : List Call) : List Call := calls.takeWhile fun call => !call.aborts

def receipts (calls : List Call) : List TransferReceipt := calls.filterMap Call.receipt

/-- The same calls, but for the order of the executions before the first timeout or
cancellation. -/
def Reordered (calls calls' : List Call) : Prop :=
  ∃ pre pre' post, calls = pre ++ post ∧ calls' = pre' ++ post ∧
    (∀ call ∈ pre, call.aborts = false) ∧ pre ~ pre' ∧
    pre.filter (!·.isExecution) = pre'.filter (!·.isExecution)

section

variable (C : Crypto)

def Call.executionSender : Call → Option Address
  | .swapExecution m => (sender C m).toOption
  | _ => none

def executionSenders (calls : List Call) : List Address :=
  calls.filterMap (Call.executionSender C)

/-- Executions of both parties, at different positions. -/
def BothExecuted (maker taker : Address) (calls : List Call) : Prop :=
  ∃ i j : Nat, i ≠ j ∧
    (∃ m, calls[i]? = some (.swapExecution m) ∧ sender C m = .ok maker) ∧
    (∃ m, calls[j]? = some (.swapExecution m) ∧ sender C m = .ok taker)

/-- The calls before the last awaited execution comes in. -/
def untilBoth : List Address → List Call → List Call
  | _, [] => []
  | awaited, call :: calls =>
    match awaited.diff (call.executionSender C).toList with
    | [] => []
    | a :: rest => call :: untilBoth (a :: rest) calls

/-- A swap that waits for the executions of `maker` and `taker`. -/
structure Engaged (s : SwapCommitment) (maker taker : Address) : Prop where
  state : s.state = .waitForExecution
  maker : ∃ c, s.makerCommitmentMsg = some c ∧ sender C c = .ok maker
  taker : ∃ c, s.takerCommitmentMsg = some c ∧ sender C c = .ok taker

/-- How the calls end a swap that waits for both executions. -/
structure EndsBy (maker taker : Address) (calls : List Call) (s : SwapCommitment) : Prop where
  traded : s.terminatedState = some .traded ↔ BothExecuted C maker taker (beforeAbort calls)
  failed : s.terminatedState = some .failed ↔
    ¬ BothExecuted C maker taker (beforeAbort calls) ∧ ∃ call ∈ calls, call.aborts
  alive : s.terminatedState = none ↔
    ¬ BothExecuted C maker taker (beforeAbort calls) ∧ ∀ call ∈ calls, call.aborts = false

/-- The transfers that come in before the swap is traded, timed out or cancelled. -/
def earlyReceipts (maker taker : Address) (calls : List Call) : List TransferReceipt :=
  receipts (untilBoth C [maker, taker] (beforeAbort calls))

end

def Output.isCompleted : Output → Bool
  | .send (.swapCompleted _) _ => true
  | _ => false

/-- The same end, the same refunds in any order and as many announcements of the trade. -/
structure SameSettlement (x y : SwapRun) : Prop where
  terminated : x.swap.terminatedState = y.swap.terminatedState
  refunded : refunds x.out ~ refunds y.out
  completed : x.out.countP Output.isCompleted = y.out.countP Output.isCompleted

variable {C : Crypto} {autoSpawnTimeout : Bool} {offerId : Nat} {secret : Hash}

theorem refunds_append (outs outs' : List Output) :
    refunds (outs ++ outs') = refunds outs ++ refunds outs' := List.filterMap_append

theorem executionSender_bind {call : Option Call} {a : Address} :
    call.bind (Call.executionSender C) = some a ↔
      ∃ m, call = some (.swapExecution m) ∧ sender C m = .ok a := by
  cases call with
  | none => simp
  | some call =>
    cases call with
    | swapExecution m => cases hm : sender C m <;> simp [Call.executionSender, hm, Except.toOption]
    | _ => simp [Call.executionSender]

/-- The two executions are there when none of them is awaited any more. -/
theorem bothExecuted_iff {maker taker : Address} {calls : List Call} :
    BothExecuted C maker taker calls ↔ [maker, taker].diff (executionSenders C calls) = [] := by
  simp only [BothExecuted, executionSenders, List.pair_diff_filterMap_eq_nil_iff,
    executionSender_bind]

/-! ## Runs of an executing swap -/

namespace Executed

variable {e : Engagement C}

/-- The parties whose executions the service waits for. -/
def awaited : Executed e → List Address
  | neither => [e.maker.address, e.taker.address]
  | byMaker _ => [e.taker.address]
  | byTaker _ => [e.maker.address]

theorem mem_awaited (x : Executed e) (a : Address) : a ∈ x.awaited ↔ x.Awaits a := by
  cases x <;> simp [awaited, Awaits]

theorem awaited_ne_nil (x : Executed e) : x.awaited ≠ [] := by
  cases x <;> simp [awaited]

end Executed

section

variable (C)

/-- The executions of all awaited senders come in before a timeout or a cancellation. -/
def Completes (awaited : List Address) (calls : List Call) : Prop :=
  awaited.diff (executionSenders C (beforeAbort calls)) = []

instance (awaited : List Address) (calls : List Call) : Decidable (Completes C awaited calls) :=
  inferInstanceAs (Decidable (_ = _))

/-- What the calls make of an executing swap that awaits executions of `awaited`. -/
structure Settles (e : Engagement C) (awaited : List Address) (calls : List Call)
    (s : SwapCommitment) (outs : List Output) : Prop where
  terminated : s.terminatedState =
    if Completes C awaited calls then some .traded
    else if calls.any Call.aborts then some .failed else none
  refunded : refunds outs =
    (receipts (untilBoth C awaited (beforeAbort calls))).map (refundOf false) ++
      if Completes C awaited calls then [e.maker.receipt, e.taker.receipt].map (refundOf true)
      else []
  completed : outs.countP Output.isCompleted = if Completes C awaited calls then 1 else 0

end

section

variable {e : Engagement C} {call : Call} {calls : List Call} {s : SwapCommitment}
  {outs outs' : List Output} {awaited awaited' : List Address}

theorem beforeAbort_cons (h : call.aborts = false) :
    beforeAbort (call :: calls) = call :: beforeAbort calls := by
  simp [beforeAbort, h]

theorem beforeAbort_abort (h : call.aborts = true) : beforeAbort (call :: calls) = [] := by
  simp [beforeAbort, h]

theorem completes_cons (h : call.aborts = false) :
    Completes C awaited (call :: calls) ↔
      Completes C (awaited.diff (call.executionSender C).toList) calls := by
  have hsenders : executionSenders C (call :: beforeAbort calls) =
      (call.executionSender C).toList ++ executionSenders C (beforeAbort calls) :=
    List.filterMap_cons_toList _ _ _
  rw [Completes, beforeAbort_cons h, hsenders, List.diff_append]
  rfl

/-- A call that leaves an execution awaited: a transfer is bounced, nothing else goes out. -/
theorem Settles.cons (h : call.aborts = false)
    (hw : awaited.diff (call.executionSender C).toList = awaited') (hne : awaited' ≠ [])
    (ho : refunds outs = call.receipt.toList.map (refundOf false))
    (hc : outs.countP Output.isCompleted = 0) (hs : Settles C e awaited' calls s outs') :
    Settles C e awaited (call :: calls) s (outs ++ outs') := by
  obtain ⟨a, rest, rfl⟩ := List.exists_cons_of_ne_nil hne
  have hcompletes : Completes C awaited (call :: calls) ↔ Completes C (a :: rest) calls := by
    rw [completes_cons h, hw]
  have huntil : untilBoth C awaited (beforeAbort (call :: calls)) =
      call :: untilBoth C (a :: rest) (beforeAbort calls) := by
    rw [beforeAbort_cons h, untilBoth, hw]
  have hreceipts (l : List Call) : receipts (call :: l) = call.receipt.toList ++ receipts l :=
    List.filterMap_cons_toList _ _ _
  constructor
  · simp only [hs.terminated, hcompletes, List.any_cons, h, Bool.false_or]
  · have hout : CommitmentService.refunds (outs ++ outs') =
        CommitmentService.refunds outs ++ CommitmentService.refunds outs' :=
      List.filterMap_append
    rw [hout, ho, hs.refunded, huntil, hreceipts, List.map_append, List.append_assoc]
    simp only [hcompletes]
  · simp only [List.countP_append, hc, hs.completed, hcompletes, Nat.zero_add]

/-- The last awaited execution. -/
theorem Settles.traded (h : call.aborts = false)
    (hw : awaited.diff (call.executionSender C).toList = [])
    (ht : s.terminatedState = some .traded)
    (ho : refunds outs = [e.maker.receipt, e.taker.receipt].map (refundOf true))
    (hc : outs.countP Output.isCompleted = 1) :
    Settles C e awaited (call :: calls) s outs := by
  have hcompletes : Completes C awaited (call :: calls) := by
    rw [completes_cons h, hw, Completes, List.nil_diff]
  have huntil : untilBoth C awaited (beforeAbort (call :: calls)) = [] := by
    rw [beforeAbort_cons h, untilBoth, hw]
  constructor
  · rw [if_pos hcompletes, ht]
  · rw [if_pos hcompletes, ho, huntil]; rfl
  · rw [if_pos hcompletes, hc]

/-- A timeout or a cancellation. -/
theorem Settles.failed (h : call.aborts = true) (hne : awaited ≠ [])
    (ht : s.terminatedState = some .failed) (ho : refunds outs = [])
    (hc : outs.countP Output.isCompleted = 0) :
    Settles C e awaited (call :: calls) s outs := by
  have hnot : ¬ Completes C awaited (call :: calls) := by
    rw [Completes, beforeAbort_abort h]; exact hne
  constructor
  · rw [if_neg hnot, List.any_cons, h, Bool.true_or, if_pos rfl, ht]
  · rw [if_neg hnot, beforeAbort_abort h, ho]; rfl
  · rw [if_neg hnot, hc]

/-- No call has an effect on a swap that is processed. -/
theorem processed_run {p : Phase C} (hp : ∀ t, p.accepts t = false) (out : List Output)
    (is : List (Nat × Call)) :
    LTS.run (swapStep C autoSpawnTimeout) { swap := p.toSwap offerId secret, out := out } is =
      { swap := p.toSwap offerId secret, out := out } := by
  induction is with
  | nil => rfl
  | cons i is ih =>
    have hi : swapStep C autoSpawnTimeout { swap := p.toSwap offerId secret, out := out } i =
        { swap := p.toSwap offerId secret, out := out } := by
      rw [swapStep, hand_undeclared (declares_none offerId secret (hp _))]
      rfl
    rw [LTS.run_cons, hi, ih]

/-- An executing swap, through any calls. -/
theorem executing_run (autoSpawnTimeout : Bool) (offerId : Nat) (secret : Hash) (e : Engagement C)
    (x : Executed e) (out : List Output) (is : List (Nat × Call)) :
    ∃ (p' : Phase C) (outs : List Output),
    LTS.run (swapStep C autoSpawnTimeout)
      { swap := (Phase.executing e x).toSwap offerId secret, out := out } is =
      { swap := p'.toSwap offerId secret, out := out ++ outs } ∧
    Settles C e x.awaited (is.map Prod.snd) (p'.toSwap offerId secret) outs := by
  induction is generalizing x out with
  | nil =>
    refine ⟨.executing e x, [], by simp, ?_⟩
    have hnot : ¬ Completes C x.awaited [] := x.awaited_ne_nil
    exact ⟨by rw [List.map_nil, if_neg hnot]; rfl, by rw [List.map_nil, if_neg hnot]; rfl,
      by rw [List.map_nil, if_neg hnot]; rfl⟩
  | cons i is ih =>
    obtain ⟨now, call⟩ := i
    obtain ⟨p₁, outs₁, err, hstep, hrun⟩ :=
      swapStep_phase autoSpawnTimeout offerId secret (.executing e x) out (now, call)
    rw [LTS.run_cons, hrun, List.map_cons]
    -- the call leaves the swap executing
    have hgoes (x' : Executed e) (hp : p₁ = .executing e x') (hab : call.aborts = false)
        (hw : x.awaited.diff (call.executionSender C).toList = x'.awaited)
        (ho : refunds outs₁ = call.receipt.toList.map (refundOf false))
        (hc : outs₁.countP Output.isCompleted = 0) : ∃ (p' : Phase C) (outs : List Output),
        LTS.run (swapStep C autoSpawnTimeout)
          { swap := p₁.toSwap offerId secret, out := out ++ outs₁ } is =
          { swap := p'.toSwap offerId secret, out := out ++ outs } ∧
        Settles C e x.awaited (call :: is.map Prod.snd) (p'.toSwap offerId secret) outs := by
      subst hp
      obtain ⟨p', outs, hrun', hs⟩ := ih x' (out ++ outs₁)
      exact ⟨p', outs₁ ++ outs, by rw [hrun', List.append_assoc],
        hs.cons hab hw x'.awaited_ne_nil ho hc⟩
    -- the call ends it
    have hends (hp : ∀ t, p₁.accepts t = false)
        (hs : Settles C e x.awaited (call :: is.map Prod.snd) (p₁.toSwap offerId secret) outs₁) :
        ∃ (p' : Phase C) (outs : List Output), LTS.run (swapStep C autoSpawnTimeout)
          { swap := p₁.toSwap offerId secret, out := out ++ outs₁ } is =
          { swap := p'.toSwap offerId secret, out := out ++ outs } ∧
        Settles C e x.awaited (call :: is.map Prod.snd) (p'.toSwap offerId secret) outs :=
      ⟨p₁, outs₁, processed_run hp _ is, hs⟩
    cases hstep with
    | undeclared hacc =>
      have hother : call.aborts = false ∧ call.executionSender C = none ∧
          call.receipt = none := by
        cases call <;> first | exact ⟨rfl, rfl, rfl⟩ | cases hacc
      exact hgoes x rfl hother.1 (by rw [hother.2.1]; rfl) (by rw [hother.2.2]; rfl) rfl
    | @makerExecuted _ y =>
      refine hgoes (.byMaker y) rfl rfl ?_ rfl rfl
      simp [Call.executionSender, y.executed, Except.toOption, Executed.awaited]
    | @takerExecuted _ y hne =>
      refine hgoes (.byTaker y) rfl rfl ?_ rfl rfl
      simp [Call.executionSender, y.executed, Except.toOption, Executed.awaited, hne.symm]
    | @takerCompleted _ y z =>
      refine hends (fun _ => rfl) (.traded rfl ?_ rfl rfl rfl)
      simp [Call.executionSender, z.executed, Except.toOption, Executed.awaited]
    | @makerCompleted _ y z =>
      refine hends (fun _ => rfl) (.traded rfl ?_ rfl rfl rfl)
      simp [Call.executionSender, y.executed, Except.toOption, Executed.awaited]
    | @executionIgnored _ _ m a hm ha =>
      have hnot : a ∉ x.awaited := fun h => ha ((x.mem_awaited a).mp h)
      refine hgoes x rfl rfl ?_ rfl rfl
      simp [Call.executionSender, hm, Except.toOption, List.erase_of_not_mem hnot]
    | executionUnrecoverable hm =>
      refine hgoes x rfl rfl ?_ rfl rfl
      simp [Call.executionSender, hm, Except.toOption]
    | executionBounced => exact hgoes x rfl rfl rfl rfl rfl
    | failed htr =>
      exact hends (fun _ => rfl)
        (.failed (by simp [Call.aborts, htr]) x.awaited_ne_nil rfl rfl rfl)

end

/-! ## The end of an engaged swap -/

theorem untilBoth_initial (awaited : List Address) (calls : List Call) :
    untilBoth C awaited calls <+: calls := by
  induction calls generalizing awaited with
  | nil => exact List.prefix_rfl
  | cons call calls ih =>
    rw [untilBoth]
    split
    · exact List.nil_prefix
    · exact List.cons_prefix_cons.mpr ⟨rfl, ih _⟩

theorem Settles.endsBy {e : Engagement C} {calls : List Call} {s : SwapCommitment}
    {outs : List Output}
    (h : Settles C e [e.maker.address, e.taker.address] calls s outs) :
    EndsBy C e.maker.address e.taker.address calls s := by
  have hboth : BothExecuted C e.maker.address e.taker.address (beforeAbort calls) ↔
      Completes C [e.maker.address, e.taker.address] calls := bothExecuted_iff
  have hany : calls.any Call.aborts = true ↔ ∃ call ∈ calls, call.aborts := List.any_eq_true
  constructor <;> rw [h.terminated, hboth]
  · by_cases hc : Completes C [e.maker.address, e.taker.address] calls
    · simp [hc]
    · simp only [hc, if_false, iff_false]; split <;> simp
  · rw [← hany]
    by_cases hc : Completes C [e.maker.address, e.taker.address] calls
    · simp [hc]
    · simp [hc]
  · by_cases hc : Completes C [e.maker.address, e.taker.address] calls
    · simp [hc]
    · simp [hc]

section

variable {calls calls' : List Call}

theorem beforeAbort_append {pre : List Call} (h : ∀ call ∈ pre, call.aborts = false)
    (post : List Call) : beforeAbort (pre ++ post) = pre ++ beforeAbort post := by
  rw [beforeAbort, List.takeWhile_append_of_pos]
  · rfl
  · intro call hcall; rw [h call hcall]; rfl

theorem receipts_filter (calls : List Call) :
    receipts (calls.filter (!·.isExecution)) = receipts calls := by
  rw [receipts, List.filterMap_filter, receipts]
  congr 1
  funext call
  cases call <;> rfl

/-- Reordering the executions changes neither the senders that are crossed off, nor the
transfers, nor whether the swap is aborted. -/
theorem Reordered.same (C : Crypto) (awaited : List Address) (h : Reordered calls calls') :
    (Completes C awaited calls ↔ Completes C awaited calls') ∧
    receipts (beforeAbort calls) = receipts (beforeAbort calls') ∧
    calls.any Call.aborts = calls'.any Call.aborts := by
  obtain ⟨pre, pre', post, rfl, rfl, hpre, hperm, hfilter⟩ := h
  have hpre' : ∀ call ∈ pre', call.aborts = false := fun call hc => hpre call (hperm.mem_iff.mpr hc)
  refine ⟨?_, ?_, ?_⟩
  · rw [Completes, Completes, beforeAbort_append hpre, beforeAbort_append hpre']
    have hsenders : executionSenders C (pre ++ beforeAbort post) ~
        executionSenders C (pre' ++ beforeAbort post) := (hperm.append_right _).filterMap _
    rw [hsenders.diff_left]
  · rw [beforeAbort_append hpre, beforeAbort_append hpre', ← receipts_filter,
      List.filter_append, hfilter, ← List.filter_append, receipts_filter]
  · rw [Bool.eq_iff_iff, List.any_eq_true, List.any_eq_true]
    simp only [((hperm.append_right post).mem_iff)]

/-- Of the same transfers, equally many come in early only if the same do. -/
theorem Reordered.earlyReceipts_eq {maker taker : Address} (h : Reordered calls calls')
    (hlen : (earlyReceipts C maker taker calls).length =
      (earlyReceipts C maker taker calls').length) :
    earlyReceipts C maker taker calls = earlyReceipts C maker taker calls' := by
  have hpre : earlyReceipts C maker taker calls <+: receipts (beforeAbort calls) :=
    (untilBoth_initial _ _).filterMap _
  have hpre' : earlyReceipts C maker taker calls' <+: receipts (beforeAbort calls) := by
    rw [(h.same C []).2.1]
    exact (untilBoth_initial _ _).filterMap _
  exact (List.prefix_of_prefix_length_le hpre hpre' (Nat.le_of_eq hlen)).eq_of_length hlen

end

theorem engaged_executing {s : SwapCommitment} {p : Phase C} (hp : s = p.toSwap offerId secret)
    (hs : s.state = .waitForExecution) : ∃ e : Engagement C, p = .executing e .neither ∧
      Engaged C s e.maker.address e.taker.address := by
  subst hp
  cases p with
  | executing e x =>
    cases x with
    | neither =>
      exact ⟨e, rfl, rfl, ⟨_, rfl, e.maker.committed⟩, ⟨_, rfl, e.taker.committed⟩⟩
    | byMaker x => cases hs
    | byTaker y => cases hs
  | _ => cases hs

/-- A swap that waits for the executions of a maker and a taker ends as the calls before the
first timeout or cancellation say: traded when both are among them, else failed. Of two
sequences of calls that differ in the order of these executions, both come to the same end with
the same refunds and announcements exactly when equally many transfers come in before it is
traded: a transfer that comes later is not refunded. -/
theorem execution_order_iff (C : Crypto) (autoSpawnTimeout : Bool) (offerId : Nat) (secret : Hash)
    (h : List (Nat × Call))
    (hs : (swapRun C autoSpawnTimeout offerId secret h).swap.state = .waitForExecution) :
    ∃ maker taker, Engaged C (swapRun C autoSpawnTimeout offerId secret h).swap maker taker ∧
      (∀ is, EndsBy C maker taker (is.map Prod.snd)
        (swapRun C autoSpawnTimeout offerId secret (h ++ is)).swap) ∧
      ∀ is js, Reordered (is.map Prod.snd) (js.map Prod.snd) →
        (SameSettlement (swapRun C autoSpawnTimeout offerId secret (h ++ is))
            (swapRun C autoSpawnTimeout offerId secret (h ++ js)) ↔
          (earlyReceipts C maker taker (is.map Prod.snd)).length =
            (earlyReceipts C maker taker (js.map Prod.snd)).length) := by
  obtain ⟨p, hp, -⟩ := swapRun_induction C autoSpawnTimeout offerId secret
    (fun _ _ _ => True) trivial (fun _ _ _ _ _ _ _ _ _ _ _ => trivial) h
  obtain ⟨e, rfl, he⟩ := engaged_executing hp hs
  -- every continuation is a run of the executing swap
  have hruns (is : List (Nat × Call)) : ∃ (p' : Phase C) (outs : List Output),
      swapRun C autoSpawnTimeout offerId secret (h ++ is) =
        { swap := p'.toSwap offerId secret,
          out := (swapRun C autoSpawnTimeout offerId secret h).out ++ outs } ∧
      Settles C e [e.maker.address, e.taker.address] (is.map Prod.snd)
        (p'.toSwap offerId secret) outs := by
    obtain ⟨p', outs, hrun, hset⟩ := executing_run autoSpawnTimeout offerId secret e .neither
      (swapRun C autoSpawnTimeout offerId secret h).out is
    refine ⟨p', outs, ?_, hset⟩
    rw [swapRun, LTS.run_append, ← hrun, ← hp]
    rfl
  refine ⟨e.maker.address, e.taker.address, he, ?_, ?_⟩
  · intro is
    obtain ⟨p', outs, hrun, hset⟩ := hruns is
    rw [hrun]
    exact hset.endsBy
  · intro is js hre
    obtain ⟨p₁, outs₁, hrun₁, h₁⟩ := hruns is
    obtain ⟨p₂, outs₂, hrun₂, h₂⟩ := hruns js
    obtain ⟨hcompletes, -, hany⟩ :=
      hre.same C [e.maker.address, e.taker.address]
    rw [hrun₁, hrun₂]
    constructor
    · intro hsame
      have hperm : refunds outs₁ ~ refunds outs₂ := by
        have := hsame.refunded
        simpa only [refunds_append, List.perm_append_left_iff] using this
      have hlen := hperm.length_eq
      rw [h₁.refunded, h₂.refunded, List.length_append, List.length_append, List.length_map,
        List.length_map, if_congr hcompletes rfl rfl] at hlen
      exact Nat.add_right_cancel hlen
    · intro hlen
      have hout : refunds outs₁ = refunds outs₂ := by
        have hearly := hre.earlyReceipts_eq hlen
        simp only [earlyReceipts] at hearly
        rw [h₁.refunded, h₂.refunded, hearly, if_congr hcompletes rfl rfl]
      constructor
      · rw [h₁.terminated, h₂.terminated, hany, if_congr hcompletes rfl rfl]
      · rw [refunds_append, refunds_append, hout]
      · rw [List.countP_append, List.countP_append, h₁.completed, h₂.completed,
          if_congr hcompletes rfl rfl]

/-- Maker `1` and taker `2` are engaged. -/
def engagedCalls : List (Nat × Call) :=
  [(0, .makerCommitment (commitmentOf (some 1))), (0, .transferReceipt (depositOf 1)),
    (0, .takerCommitment (commitmentOf (some 2))), (0, .transferReceipt (depositOf 2))]

/-- The maker's execution before or after the taker's, with a transfer of `3` between them. -/
theorem maker_or_taker_first :
    SameSettlement
      (swapRun .plain true 7 0 (engagedCalls ++ [(0, .swapExecution (executionOf 1)),
        (0, .transferReceipt (depositOf 3)), (0, .swapExecution (executionOf 2))]))
      (swapRun .plain true 7 0 (engagedCalls ++ [(0, .swapExecution (executionOf 2)),
        (0, .transferReceipt (depositOf 3)), (0, .swapExecution (executionOf 1))])) := by
  obtain ⟨maker, taker, he, -, hiff⟩ :=
    execution_order_iff .plain true 7 0 engagedCalls (by decide +kernel)
  obtain ⟨c, hc, hmaker⟩ := he.maker
  obtain ⟨d, hd, htaker⟩ := he.taker
  rw [show SwapCommitment.makerCommitmentMsg _ = some (commitmentOf (some 1)) by
    decide +kernel] at hc
  rw [show SwapCommitment.takerCommitmentMsg _ = some (commitmentOf (some 2)) by
    decide +kernel] at hd
  cases hc
  cases hd
  rw [show sender .plain (commitmentOf (some 1)) = .ok 1 by decide +kernel] at hmaker
  rw [show sender .plain (commitmentOf (some 2)) = .ok 2 by decide +kernel] at htaker
  cases hmaker
  cases htaker
  refine (hiff _ _
    ⟨_, _, [], (List.append_nil _).symm, (List.append_nil _).symm, ?_, ?_, ?_⟩).mpr ?_
    <;> decide +kernel

/-- The execution of a stranger `3`, first or last: in the second order the transfer between
them comes after the trade and is not refunded. -/
theorem late_transfer_not_refunded :
    Reordered
      [.swapExecution (executionOf 3), .swapExecution (executionOf 1),
        .transferReceipt (depositOf 3), .swapExecution (executionOf 2)]
      [.swapExecution (executionOf 1), .swapExecution (executionOf 2),
        .transferReceipt (depositOf 3), .swapExecution (executionOf 3)] ∧
    ¬ SameSettlement
      (swapRun .plain true 7 0 (engagedCalls ++ [(0, .swapExecution (executionOf 3)),
        (0, .swapExecution (executionOf 1)), (0, .transferReceipt (depositOf 3)),
        (0, .swapExecution (executionOf 2))]))
      (swapRun .plain true 7 0 (engagedCalls ++ [(0, .swapExecution (executionOf 1)),
        (0, .swapExecution (executionOf 2)), (0, .transferReceipt (depositOf 3)),
        (0, .swapExecution (executionOf 3))])) := by
  refine ⟨⟨_, _, [], (List.append_nil _).symm, (List.append_nil _).symm, ?_, ?_, ?_⟩, ?_⟩
  · decide +kernel
  · decide +kernel
  · decide +kernel
  · intro h
    have hlen := h.refunded.length_eq
    revert hlen
    decide +kernel

end CommitmentService
end Raidex
