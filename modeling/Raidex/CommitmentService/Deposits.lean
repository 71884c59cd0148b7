import Raidex.CommitmentService.Cancelling

/-!
# Raidex.CommitmentService.Deposits

Where the transfers to the commitment service are, at every moment.

* `Placed`: every processed transfer is held by a registered swap, queued for refund, or a
  forfeited deposit, and in one place only.
* `Phase.Step.places`: one call keeps the places of a swap.
* `placed_iff`: a run keeps every transfer placed exactly when each one finds a swap registered
  under its identifier that can tell who its maker is.
-/

namespace Raidex
namespace CommitmentService

open scoped List

variable {C : Crypto}

def ServiceEvent.receipt : ServiceEvent → Option TransferReceipt
  | .transferReceipt r => some r
  | _ => none

/-- The transfers `TransferReceivedTask` has processed. -/
def processedReceipts (is : List ServiceInput) : List TransferReceipt :=
  is.filterMap fun i => i.event.receipt

/-- The deposits of the swaps that are registered. -/
def Service.held (s : Service) : List TransferReceipt :=
  s.objects.zipIdx.flatMap fun x =>
    if s.swaps.lookup x.1.offerId = some x.2 then x.1.deposits else []

/-- The transfers of the refunds the swaps have queued. -/
def Service.queued (s : Service) : List TransferReceipt := s.refundQueue.map Refund.receipt

def SwapCommitment.forfeited (o : SwapCommitment) : List TransferReceipt :=
  if o.terminatedState = some .failed then o.deposits else []

def Service.forfeited (s : Service) : List TransferReceipt :=
  s.objects.flatMap SwapCommitment.forfeited

/-- Every transfer processed so far is in exactly one place. -/
def Placed (is : List ServiceInput) (s : Service) : Prop :=
  processedReceipts is ~ s.held ++ s.queued ++ s.forfeited

/-- A swap is registered under the identifier of the transfer, and if it waits for its maker, the
sender of its maker commitment can be recovered. -/
def Expected (C : Crypto) (s : Service) (r : TransferReceipt) : Prop :=
  ∃ o, s.swap? r.identifier = some o ∧ (o.state = .waitForMaker → MakerKnown C o)

/-! ## One swap -/

/-- The transfers that are at a swap: its deposits while it is live, then the forfeited ones. -/
def SwapCommitment.places (o : SwapCommitment) : List TransferReceipt :=
  (if o.state = .processed then [] else o.deposits) ++ o.forfeited

theorem Phase.places_executing {e : Engagement C} {x : Executed e} {offerId : Nat} {secret : Hash} :
    ((Phase.executing e x).toSwap offerId secret).places = [e.maker.receipt, e.taker.receipt] := by
  cases x <;> rfl

theorem Phase.Step.places {offerId now : Nat} {secret : Hash} {p p' : Phase C} {call : Call}
    {outs : List Output} {err : Option PyError}
    (h : Phase.Step true offerId secret now p call p' outs err)
    (hinit : (p.toSwap offerId secret).state ≠ .initializing)
    (hlive : call.receipt.isSome → (p.toSwap offerId secret).state ≠ .processed)
    (hknown : call.receipt.isSome → (p.toSwap offerId secret).state = .waitForMaker →
      MakerKnown C (p.toSwap offerId secret)) :
    (p.toSwap offerId secret).places ++ call.receipt.toList ~
      (p'.toSwap offerId secret).places ++ (refunds outs).map Refund.receipt := by
  have hstop {call : Call} (h : call.trigger = .timeout) : call.receipt = none := by
    cases call <;> first | rfl | cases h
  cases h with
  | undeclared hacc =>
    have hnone : call.receipt = none := by
      cases call with
      | transferReceipt r =>
        cases p with
        | initializing => exact absurd rfl hinit
        | waitForMaker c | waitForTaker m pool | executing e x => cases hacc
        | _ => exact absurd rfl (hlive rfl)
      | _ => rfl
    rw [hnone]; exact .refl _
  | makerCommitted _ | makerCommittedTooLate _ _ | abandoned _ => exact absurd rfl hinit
  | makerUnrecoverable hc =>
    obtain ⟨c, a, hc', ha⟩ := hknown rfl rfl
    cases hc'
    rw [hc] at ha; cases ha
  | uncommitted htr | untraded htr => rw [hstop htr]; exact .refl _
  | failed htr => rw [hstop htr, Phase.places_executing]; exact .refl _
  | executionBounced => exact .refl _
  | takerDeposited | makerExecuted | takerExecuted _ | takerCompleted | makerCompleted =>
    simp only [Phase.places_executing]; exact .refl _
  | _ => exact .refl _

/-- A transfer to a swap that cannot tell who its maker is changes nothing. -/
theorem Phase.Step.lost {offerId now : Nat} {secret : Hash} {p p' : Phase C} {r : TransferReceipt}
    {outs : List Output} {err : Option PyError}
    (h : Phase.Step true offerId secret now p (.transferReceipt r) p' outs err)
    (hstate : (p.toSwap offerId secret).state = .waitForMaker)
    (hunknown : ¬ MakerKnown C (p.toSwap offerId secret)) : p' = p ∧ outs = [] := by
  cases h with
  | undeclared _ | makerUnrecoverable _ => exact ⟨rfl, rfl⟩
  | makerDeposited => rename_i m; exact absurd ⟨_, _, rfl, m.committed⟩ hunknown
  | makerBounced hc _ => exact absurd ⟨_, _, rfl, hc⟩ hunknown
  | abandoned htr | uncommitted htr | untraded htr | failed htr => cases htr
  | executionBounced => rename_i e x; cases x <;> cases hstate
  | _ => cases hstate

/-! ## The service -/

/-- The transfers that are at some swap or queued for refund. -/
def Service.places (s : Service) : List TransferReceipt :=
  s.objects.flatMap SwapCommitment.places ++ s.queued

theorem Registry.held_eq {s : Service} (hs : Registry C s) :
    s.held = s.objects.flatMap fun o => if o.state = .processed then [] else o.deposits := by
  conv_rhs => rw [← List.zipIdx_map_fst 0 s.objects, List.flatMap_map]
  refine List.flatMap_congr ?_
  rintro ⟨o, i⟩ hmem
  have ho : s.objects[i]? = some o := List.mem_zipIdx_iff_getElem?.mp hmem
  by_cases hstate : o.state = .processed
  · have hno : ¬ s.swaps.lookup o.offerId = some i := fun hl =>
      (hs.swap?_live hl ho).2.2 hstate
    simp only [if_neg hno, if_pos hstate]
  · simp only [if_pos (hs.live i o ho hstate), if_neg hstate]

theorem Registry.places_perm {s : Service} (hs : Registry C s) :
    s.held ++ s.queued ++ s.forfeited ~ s.places := by
  calc s.held ++ s.queued ++ s.forfeited ~ s.held ++ (s.forfeited ++ s.queued) := by
        rw [List.append_assoc]; exact List.perm_append_comm.append_left _
    _ ~ s.held ++ s.forfeited ++ s.queued := by rw [List.append_assoc]
    _ ~ s.places := by
        rw [hs.held_eq]
        exact (List.flatMap_append_perm _ _ _).append_right _

theorem Registry.not_initializing {s : Service} (hs : Registry C s) {i : Nat} {o : SwapCommitment}
    (ho : s.objects[i]? = some o) : o.state ≠ .initializing := by
  intro hinit
  have hl := hs.live i o ho (by rw [hinit]; exact nofun)
  exact (hs.swap?_live hl ho).2.1 hinit

theorem Service.route_receipt {s : Service} {e : ServiceEvent} {i : Nat} {call : Call}
    (h : s.route e = some (i, call)) : call.receipt = e.receipt := by
  cases e with
  | timer j =>
    simp only [route] at h
    split at h <;> cases h
    rfl
  | _ =>
    obtain ⟨j, -, ⟨⟩⟩ := Option.map_eq_some_iff.mp h
    rfl

/-- The swap that is called for a transfer. -/
theorem Registry.route_transfer {s : Service} (hs : Registry C s) {e : ServiceEvent} {i : Nat}
    {call : Call} {o : SwapCommitment} (h : s.route e = some (i, call))
    (ho : s.objects[i]? = some o) {r : TransferReceipt} (hr : e.receipt = some r) :
    s.swap? r.identifier = some o ∧ o.state ≠ .processed := by
  cases e with
  | transferReceipt r' =>
    cases hr
    obtain ⟨j, hl, ⟨⟩⟩ := Option.map_eq_some_iff.mp h
    obtain ⟨hswap, -, hlive⟩ := hs.swap?_live hl ho
    exact ⟨hswap, hlive⟩
  | _ => cases hr

/-- An input keeps the places when it is not an unexpected transfer. -/
theorem Served.places {s s' : Service} {input : ServiceInput} {err : Option PyError}
    (hs : Registry C s) (h : Served C s input s' err)
    (hexp : ∀ r, input.event.receipt = some r → Expected C s r) :
    s.places ++ input.event.receipt.toList ~ s'.places := by
  cases h with
  | called hroute ho hstep =>
    rename_i i offerId secret call outs p p'
    have hfound {r : TransferReceipt} (hr : input.event.receipt = some r) :=
      hs.route_transfer hroute ho hr
    have hcall := Service.route_receipt hroute
    have hstepPlaces := hstep.places (hs.not_initializing ho)
      (fun hr => by
        obtain ⟨r, hr⟩ := Option.isSome_iff_exists.mp hr
        exact (hfound (hcall ▸ hr)).2)
      (fun hr hstate => by
        obtain ⟨r, hr⟩ := Option.isSome_iff_exists.mp hr
        obtain ⟨o, hswap, hknown⟩ := hexp r (hcall ▸ hr)
        rw [(hfound (hcall ▸ hr)).1] at hswap
        cases hswap
        exact hknown hstate)
    have hset := List.flatMap_set_perm ho (p'.toSwap offerId secret) SwapCommitment.places
    rw [List.perm_iff_count] at hstepPlaces hset ⊢
    intro r
    have h₁ := hstepPlaces r
    have h₂ := hset r
    have hqueue : (s.taken input.event).refundQueue = s.refundQueue := by
      cases input.event <;> rfl
    simp only [Service.places, Service.afterCall, Service.queued, s.taken_objects, hqueue,
      List.map_append, List.count_append, hcall] at h₁ h₂ ⊢
    omega
  | created hl hstep =>
    simp only [Service.places, Service.created, Service.queued, List.flatMap_append,
      List.flatMap_singleton]
    simp [ServiceEvent.receipt, SwapCommitment.places, Phase.toSwap, SwapCommitment.deposits,
      SwapCommitment.new, SwapCommitment.forfeited]
  | ignored hroute hno =>
    cases hr : input.event.receipt with
    | none =>
      rw [Option.toList_none, List.append_nil]
      cases he : input.event <;> exact .refl _
    | some r =>
      obtain ⟨o, hswap, -⟩ := hexp r hr
      cases he : input.event with
      | transferReceipt r' =>
        rw [he] at hr hroute
        cases hr
        rw [Service.swap?_none (Option.map_eq_none_iff.mp hroute)] at hswap
        cases hswap
      | _ => rw [he] at hr; cases hr

/-- An unexpected transfer changes no place. -/
theorem Served.places_lost {s s' : Service} {input : ServiceInput} {err : Option PyError}
    (hs : Registry C s) (h : Served C s input s' err) {r : TransferReceipt}
    (hr : input.event.receipt = some r) (hexp : ¬ Expected C s r) : s'.places = s.places := by
  cases h with
  | called hroute ho hstep =>
    rename_i i offerId secret call outs p p'
    obtain ⟨hswap, -⟩ := hs.route_transfer hroute ho hr
    have hcall : call = .transferReceipt r := by
      have hreceipt := (Service.route_receipt hroute).trans hr
      cases call <;> cases hreceipt
      rfl
    subst hcall
    have hunknown : ¬ ((p.toSwap offerId secret).state = .waitForMaker →
        MakerKnown C (p.toSwap offerId secret)) := fun hknown => hexp ⟨_, hswap, hknown⟩
    rw [Classical.not_imp] at hunknown
    obtain ⟨rfl, rfl⟩ := hstep.lost hunknown.1 hunknown.2
    have hset : s.objects.set i (p'.toSwap offerId secret) = s.objects := by
      obtain ⟨hi, hget⟩ := List.getElem?_eq_some_iff.mp ho
      rw [← hget]; exact List.set_getElem_self hi
    have hqueue : (s.taken input.event).refundQueue = s.refundQueue := by
      cases input.event <;> rfl
    simp [Service.places, Service.afterCall, Service.queued, s.taken_objects, hset, hqueue, refunds]
  | created hl hstep => cases hr
  | ignored _ _ => cases he : input.event <;> rfl

theorem processedReceipts_concat (h : List ServiceInput) (input : ServiceInput) :
    processedReceipts (h ++ [input]) = processedReceipts h ++ input.event.receipt.toList := by
  rw [processedReceipts, List.filterMap_append, ← processedReceipts]
  cases hr : input.event.receipt <;> simp [hr]

theorem Registry.placed_iff_places {s : Service} (hs : Registry C s) (h : List ServiceInput) :
    Placed h s ↔ processedReceipts h ~ s.places :=
  ⟨fun hp => hp.trans hs.places_perm, fun hp => hp.trans hs.places_perm.symm⟩

/-- At every moment of a run every processed transfer is placed, exactly when every transfer is
processed while a swap is registered under its identifier that is not waiting for a maker it
cannot tell. -/
theorem placed_iff (C : Crypto) (is : List ServiceInput) :
    (∀ pre, pre <+: is → Placed pre (serviceRun C pre)) ↔
      LTS.AllSteps (serviceStep C)
        (fun s input => ∀ r, input.event.receipt = some r → Expected C s r) .init is := by
  refine LTS.prefixes_iff_allSteps (I := fun s => Registry C s) (P := Placed) .init
    (fun s input hs => registry_step hs input) (.refl _) ?_ ?_ is
  · intro h s input hs hplaced hexp
    obtain ⟨s', err, hserved, hrun⟩ := served hs input
    have hstep : serviceStep C s input = s' := by
      rw [serviceStep, hrun, EStateM.Result.state_of]
    rw [hstep, (hs.served hserved).placed_iff_places, processedReceipts_concat]
    exact (((hs.placed_iff_places h).mp hplaced).append_right _).trans (hserved.places hs hexp)
  · intro h s input hs hplaced hexp
    simp only [not_forall] at hexp
    obtain ⟨r, hr, hexp⟩ := hexp
    obtain ⟨s', err, hserved, hrun⟩ := served hs input
    have hstep : serviceStep C s input = s' := by
      rw [serviceStep, hrun, EStateM.Result.state_of]
    rw [hstep, (hs.served hserved).placed_iff_places, processedReceipts_concat,
      hserved.places_lost hs hr hexp, hr]
    intro hafter
    have hbefore := ((hs.placed_iff_places h).mp hplaced).length_eq
    have hlength := hafter.length_eq
    rw [List.length_append, hbefore] at hlength
    simp at hlength

/-- Taker `2` commits while the swap waits for a taker, and transfers after the timeout. -/
def lateTransferInputs : List ServiceInput :=
  [.commitment 0 (commitmentOf (some 1)), .transferReceipt (depositOf 1),
    .commitment 0 (commitmentOf (some 2)), .timer 0, .transferReceipt (depositOf 2)].map
    fun event => { now := 0, event := event }

/-- The transfer of a taker that comes after the timeout is gone. -/
theorem late_taker_transfer_lost :
    ¬ Placed lateTransferInputs (serviceRun .plain lateTransferInputs) := by
  intro h
  have hlength := h.length_eq
  revert hlength
  decide +kernel

end CommitmentService
end Raidex
