import Raidex.CommitmentService.Errors

/-!
# Raidex.CommitmentService.Cancelling

Who can cancel a swap at the service: the task does not look at the sender of a `Cancellation`,
and a swap takes every cancellation as its timeout.

* `AuthorityRespected`: only the maker cancels, and not once a taker is engaged.
* `authority_respected_iff`: exactly which cancellations respect it.
-/

namespace Raidex
namespace CommitmentService

variable {C : Crypto}

/-- The cancellation and the maker commitment of the swap have the same sender. -/
def SentByMaker (C : Crypto) (m : Cancellation) (o : SwapCommitment) : Prop :=
  ∃ c a, o.makerCommitmentMsg = some c ∧ sender C c = .ok a ∧ sender C m = .ok a

/-- Swaps, registry and queues are as before, whatever timers fired. -/
def SameSwaps (s s' : Service) : Prop :=
  s'.objects = s.objects ∧ s'.swaps = s.swaps ∧ s'.refundQueue = s.refundQueue ∧
    s'.messageQueue = s.messageQueue

/-- `m` takes the service from `s` to `s'`. If it is not from the maker of the swap it names,
nothing changes; if it is, but a taker is engaged, the swap does not fail. -/
def AuthorityRespected (C : Crypto) (s s' : Service) (m : Cancellation) : Prop :=
  ((∀ o, s.swap? m.offerId = some o → ¬ SentByMaker C m o) → SameSwaps s s') ∧
  ∀ (i : Nat) o o', s.swaps.lookup m.offerId = some i → s.objects[i]? = some o →
    SentByMaker C m o → Executing o → s'.objects[i]? = some o' →
    o'.terminatedState ≠ some .failed

/-- The maker, before a taker is engaged. -/
def MayCancel (C : Crypto) (s : Service) (m : Cancellation) : Prop :=
  ∀ o, s.swap? m.offerId = some o →
    SentByMaker C m o ∧ o.state ∈ [SwapState.waitForMaker, .waitForTaker]

/-- A cancellation processes every live swap, and fails it when a taker is engaged. -/
theorem Phase.Step.cancellation {offerId now : Nat} {secret : Hash} {p p' : Phase C}
    {outs : List Output} {err : Option PyError}
    (h : Phase.Step true offerId secret now p .cancellation p' outs err)
    (hinit : (p.toSwap offerId secret).state ≠ .initializing)
    (hlive : (p.toSwap offerId secret).state ≠ .processed) :
    (p'.toSwap offerId secret).state = .processed ∧
      ((p.toSwap offerId secret).state ∈ [SwapState.waitForMaker, .waitForTaker] ∨
        Executing (p.toSwap offerId secret) ∧
          (p'.toSwap offerId secret).terminatedState = some .failed) := by
  cases h with
  | undeclared hacc =>
    cases p with
    | initializing | waitForMaker c | waitForTaker m pool | executing e x => cases hacc
    | _ => exact absurd rfl hlive
  | abandoned _ => exact absurd rfl hinit
  | uncommitted _ => exact ⟨rfl, .inl (by simp [toSwap])⟩
  | untraded _ => exact ⟨rfl, .inl (by simp [toSwap, withMaker])⟩
  | failed _ => exact ⟨rfl, .inr ⟨Executed.executing _, rfl⟩⟩

theorem authority_respected_of_registry {s : Service} (hs : Registry C s) (now : Nat)
    (m : Cancellation) :
    AuthorityRespected C s (serviceStep C s { now := now, event := .cancellation m }) m ↔
      MayCancel C s m := by
  obtain ⟨s', err, hserved, hrun⟩ := served hs { now := now, event := .cancellation m }
  rw [serviceStep, hrun, EStateM.Result.state_of]
  cases hserved with
  | called hroute ho hstep =>
    rename_i i offerId secret call outs p p'
    obtain ⟨i, hl, ⟨⟩⟩ := Option.map_eq_some_iff.mp hroute
    obtain ⟨hswap, hinit, hlive⟩ := hs.swap?_live hl ho
    obtain ⟨hdone, hcase⟩ := hstep.cancellation hinit hlive
    have hself : (s.objects.set i (p'.toSwap offerId secret))[i]? =
        some (p'.toSwap offerId secret) :=
      List.getElem?_set_self (List.getElem?_eq_some_iff.mp ho).1
    constructor
    · rintro ⟨hother, hengaged⟩ o ho'
      obtain rfl : p.toSwap offerId secret = o := Option.some.inj (hswap.symm.trans ho')
      have hmaker : SentByMaker C m (p.toSwap offerId secret) := by
        by_contra hno
        have hsame : s.objects.set i (p'.toSwap offerId secret) = s.objects :=
          (hother fun o ho' => by rw [hswap] at ho'; cases ho'; exact hno).1
        rw [hsame] at hself
        rw [← Option.some.inj (ho.symm.trans hself)] at hdone
        exact hlive hdone
      refine ⟨hmaker, hcase.resolve_right ?_⟩
      rintro ⟨hexec, hfailed⟩
      exact hengaged i _ _ hl ho hmaker hexec hself hfailed
    · intro hmay
      obtain ⟨hmaker, hstate⟩ := hmay _ hswap
      refine ⟨fun hno => absurd hmaker (hno _ hswap), ?_⟩
      intro j o o' hj ho' _ hexec
      obtain rfl : i = j := Option.some.inj (hl.symm.trans hj)
      obtain rfl : p.toSwap offerId secret = o := Option.some.inj (ho.symm.trans ho')
      simp only [List.mem_cons, List.not_mem_nil, or_false] at hstate
      rcases hstate with hstate | hstate <;> simp [Executing, hstate] at hexec
  | ignored hroute _ =>
    have hl := Option.map_eq_none_iff.mp hroute
    refine iff_of_true ⟨fun _ => ⟨rfl, rfl, rfl, rfl⟩, ?_⟩ ?_
    · intro i o o' hi
      rw [hl] at hi; cases hi
    · intro o ho
      rw [Service.swap?_none hl] at ho; cases ho

/-- In every reachable state: a cancellation respects the authority of the maker exactly when it
comes from the maker of a swap that waits for maker or taker, or no swap is registered. -/
theorem authority_respected_iff (C : Crypto) (is : List ServiceInput) (now : Nat)
    (m : Cancellation) :
    AuthorityRespected C (serviceRun C is)
      (serviceStep C (serviceRun C is) { now := now, event := .cancellation m }) m ↔
      MayCancel C (serviceRun C is) m :=
  authority_respected_of_registry (registry_run is) now m

def cancellationOf (signature : Signature) : Cancellation where
  offerId := 7
  signature := some signature

/-- Maker `1` and taker `2` have deposited. -/
def engagedInputs : List ServiceInput :=
  [.commitment 0 (commitmentOf (some 1)), .transferReceipt (depositOf 1),
    .commitment 0 (commitmentOf (some 2)), .transferReceipt (depositOf 2)].map
    fun event => { now := 0, event := event }

/-- A stranger's cancellation forfeits both deposits. -/
theorem stranger_cancels :
    ¬ AuthorityRespected .plain (serviceRun .plain engagedInputs)
      (serviceStep .plain (serviceRun .plain engagedInputs)
        { now := 0, event := .cancellation (cancellationOf 3) }) (cancellationOf 3) := by
  rintro ⟨hother, -⟩
  have hswaps := (hother ?_).2.1
  · have hreg : (serviceRun .plain engagedInputs).swaps.lookup 7 = some 0 := by decide +kernel
    rw [← hswaps] at hreg
    revert hreg
    decide +kernel
  · rintro o ho ⟨c, a, hc, ha, hm⟩
    have hmaker : ((serviceRun .plain engagedInputs).swap? 7).bind
        SwapCommitment.makerCommitmentMsg = some (commitmentOf (some 1)) := by decide +kernel
    rw [show (serviceRun .plain engagedInputs).swap? 7 = some o from ho, Option.bind_some, hc]
      at hmaker
    cases hmaker
    rw [show sender .plain (commitmentOf (some 1)) = .ok 1 by decide +kernel] at ha
    cases ha
    exact absurd hm (by decide +kernel)

end CommitmentService
end Raidex
