import Raidex.CommitmentService.Engagements

/-!
# Raidex.CommitmentService.Reuse

The registry while offer ids are used again.

* `Served.finalizes`: a swap becomes processed in a call of its own, which takes its id out of
  the registry.
* `KeepsRegistry`: what a step may do to the registry; `removals`: how often a swap was taken out.
* `registry_kept_iff`: only a first commitment whose timeout fits no timer changes the registry in
  a step that raises.
-/

namespace Raidex
namespace CommitmentService

namespace Service

/-- Every id in the registry names a swap of that id which is not processed. -/
def Consistent (s : Service) : Prop :=
  ∀ offerId i, s.swaps.lookup offerId = some i →
    ∃ o, s.objects[i]? = some o ∧ o.offerId = offerId ∧ o.state ≠ .processed

def Processed (s : Service) (i : Nat) : Prop := ∃ o ∈ s.objects[i]?, o.state = .processed

/-- The registry names swap `i` under its own id. -/
def Registered (s : Service) (i : Nat) : Prop :=
  ∃ o ∈ s.objects[i]?, s.swaps.lookup o.offerId = some i

instance (s : Service) (i : Nat) : Decidable (s.Processed i) :=
  inferInstanceAs (Decidable (∃ o ∈ _, _))

instance (s : Service) (i : Nat) : Decidable (s.Registered i) :=
  inferInstanceAs (Decidable (∃ o ∈ _, _))

/-- The event does not make a swap whose timeout is too large for a timer. -/
def TimerFits (s : Service) : ServiceEvent → Prop
  | .commitment _ c => c.offerId ∈ s.swaps ∨ c.timeout ≤ maxTimestamp
  | _ => True

end Service

variable {C : Crypto}

section

variable (C)

/-- What an input may do to the registry. -/
structure KeepsRegistry (s : Service) (input : ServiceInput) : Prop where
  consistent : (serviceStep C s input).Consistent
  /-- An id keeps its swap, or loses it in the call of this swap that processes it. -/
  removed : ∀ offerId i, s.swaps.lookup offerId = some i →
    ((serviceStep C s input).swaps.lookup offerId = some i ∧
      ¬ (serviceStep C s input).Processed i) ∨
    (offerId ∉ (serviceStep C s input).swaps ∧ (serviceStep C s input).Processed i ∧
      ∃ call, s.route input.event = some (i, call))
  /-- A swap that becomes processed is taken out in the same step. -/
  finalized : ∀ i, ¬ s.Processed i → (serviceStep C s input).Processed i →
    s.Registered i ∧ ¬ (serviceStep C s input).Registered i
  made : ∀ offerId ∈ s.swaps, ∀ secret, (makeSwap C offerId secret).run s = .ok none s
  /-- The timer of a processed swap does nothing to any swap. -/
  stale : ∀ i, input.event = .timer i → s.Processed i →
    (serviceStep C s input).swaps = s.swaps ∧ (serviceStep C s input).objects = s.objects
  raised : ¬ EStateM.Returns (process C input) s → (serviceStep C s input).swaps = s.swaps

/-- Swap `i` is in the registry before the step and not after it. -/
def Removes (i : Nat) (s : Service) (input : ServiceInput) : Prop :=
  s.Registered i ∧ ¬ (serviceStep C s input).Registered i

instance (i : Nat) (s : Service) (input : ServiceInput) : Decidable (Removes C i s input) :=
  inferInstanceAs (Decidable (_ ∧ ¬ _))

def removals (is : List ServiceInput) (i : Nat) : Nat :=
  (LTS.trace (serviceStep C) .init is).countP fun x => Removes C i x.1 x.2

end

variable {s s' : Service} {input : ServiceInput} {err : Option PyError}

/-! ## One step -/

theorem Phase.Step.raised {autoSpawnTimeout : Bool} {offerId now : Nat} {secret : Hash}
    {p p' : Phase C} {call : Call} {outs : List Output}
    (h : Phase.Step autoSpawnTimeout offerId secret now p call p' outs err) (he : err ≠ none) :
    .cleanup ∉ outs := by
  cases h with
  | undeclared _ | makerCommittedTooLate _ _ | makerUnrecoverable _ | takerUnrecoverable _
  | executionUnrecoverable _ => exact List.not_mem_nil
  | _ => exact absurd rfl he

theorem Registry.consistent (hs : Registry C s) : s.Consistent := by
  intro offerId i hi
  obtain ⟨o, ho, hid, hlive, -⟩ := hs.registered offerId i hi
  exact ⟨o, ho, hid, hlive⟩

theorem Registry.not_processed (hs : Registry C s) {i : Nat} (h : s.Registered i) :
    ¬ s.Processed i := by
  obtain ⟨o, ho, hl⟩ := h
  rintro ⟨o', ho', hp⟩
  obtain ⟨o'', ho'', -, hlive, -⟩ := hs.registered _ _ hl
  cases ho'.symm.trans ho''
  exact hlive hp

/-- A swap that a step processes is the one it calls, and its id is taken out. -/
theorem Served.finalizes (h : Served C s input s' err) {i : Nat} {o o' : SwapCommitment}
    (ho : s.objects[i]? = some o) (hlive : o.state ≠ .processed)
    (ho' : s'.objects[i]? = some o') (hprocessed : o'.state = .processed) :
    s'.swaps = s.swaps.erase o.offerId ∧ ∃ call, s.route input.event = some (i, call) := by
  have hsame : s'.objects[i]? ≠ s.objects[i]? := by
    intro he
    cases ho'.symm.trans (he.trans ho)
    exact hlive hprocessed
  cases h with
  | @called _ j id secret call outs _ p p' hroute hj hstep =>
    simp only [Service.afterCall, Service.taken_objects, Service.taken_swaps] at ho' hsame ⊢
    by_cases hij : i = j
    · subst hij
      cases ho.symm.trans hj
      obtain rfl : p'.toSwap id secret = o' :=
        Option.some.inj
          ((List.getElem?_set_self (List.getElem?_eq_some_iff.mp hj).1).symm.trans ho')
      rcases hstep.cleanup with ⟨-, hiff⟩ | ⟨quiet, rfl, -, -, -⟩
      · exact absurd (hiff.mp hprocessed) hlive
      · exact ⟨by simp, call, hroute⟩
    · exact absurd (List.getElem?_set_ne (Ne.symm hij)) hsame
  | created hl hstep =>
    exact absurd (List.getElem?_append_left (List.getElem?_eq_some_iff.mp ho).1) hsame
  | ignored _ _ => exact absurd (by rw [Service.taken_objects]) hsame

/-- A processed swap stays processed. -/
theorem Served.processed (h : Served C s input s' err) {i : Nat} (hp : s.Processed i) :
    s'.Processed i := by
  obtain ⟨o, ho, hprocessed⟩ := hp
  obtain ⟨o', ho', -, -, hfixed⟩ := h.objects_cases ho
  exact ⟨o', ho', by rw [hfixed hprocessed, hprocessed]⟩

theorem Served.removed (hs : Registry C s) (h : Served C s input s' err) {offerId i : Nat}
    (hi : s.swaps.lookup offerId = some i) :
    (s'.swaps.lookup offerId = some i ∧ ¬ s'.Processed i) ∨
    (offerId ∉ s'.swaps ∧ s'.Processed i ∧ ∃ call, s.route input.event = some (i, call)) := by
  obtain ⟨o, ho, rfl, hlive, -⟩ := hs.registered offerId i hi
  obtain ⟨o', ho', hid, -, -⟩ := h.objects_cases ho
  by_cases hp : o'.state = .processed
  · obtain ⟨hswaps, hcall⟩ := h.finalizes ho hlive ho' hp
    exact .inr ⟨by rw [hswaps]; simp, ⟨o', ho', hp⟩, hcall⟩
  · refine .inl ⟨?_, ?_⟩
    · rw [← hid]
      exact (hs.served h).live i o' ho' hp
    · rintro ⟨o'', ho'', hp'⟩
      cases ho'.symm.trans ho''
      exact hp hp'

theorem Served.finalized (hs : Registry C s) (h : Served C s input s' err) {i : Nat}
    (hlive : ¬ s.Processed i) (hp : s'.Processed i) : s.Registered i ∧ ¬ s'.Registered i := by
  obtain ⟨o', ho', hprocessed⟩ := hp
  refine ⟨?_, fun hr => (hs.served h).not_processed hr ⟨o', ho', hprocessed⟩⟩
  rcases h.objects_new ho' with ⟨o, ho, -, -⟩ | ⟨secret, c, -, -, hi, -, -⟩
  · exact ⟨o, ho, hs.live i o ho fun hp => hlive ⟨o, ho, hp⟩⟩
  · -- a swap that was made in this step waits for its maker
    cases h with
    | created _ _ =>
      subst hi
      cases (List.getElem?_concat_length ..).symm.trans ho'
      cases hprocessed
    | called _ hj _ =>
      rw [hi] at ho'
      simp [Service.afterCall, Service.taken_objects] at ho'
    | ignored _ _ => rw [hi, Service.taken_objects] at ho'; simp at ho'

/-- The timer of a processed swap changes neither the swaps nor the registry. -/
theorem Served.stale (h : Served C s input s' err) {i : Nat} (he : input.event = .timer i)
    (hp : s.Processed i) : s'.swaps = s.swaps ∧ s'.objects = s.objects := by
  cases h with
  | @called _ j id secret call outs _ p p' hroute hj hstep =>
    obtain ⟨o, ho, hprocessed⟩ := hp
    rw [he] at hroute
    simp only [Service.route, Option.ite_none_right_eq_some, Option.some.injEq,
      Prod.mk.injEq] at hroute
    obtain ⟨-, rfl, rfl⟩ := hroute
    cases ho.symm.trans hj
    rcases hstep.cleanup with ⟨hno, -⟩ | ⟨-, -, -, hlive, -⟩
    · simp only [Service.afterCall, hno, if_false, Service.taken_objects, Service.taken_swaps,
        hstep.processed hprocessed, true_and]
      obtain ⟨hlt, hself⟩ := List.getElem?_eq_some_iff.mp hj
      rw [← hself]
      exact List.set_getElem_self hlt
    · exact absurd hprocessed hlive
  | created _ _ => cases he
  | ignored _ _ => exact ⟨Service.taken_swaps .., Service.taken_objects ..⟩

theorem Service.made {offerId : Nat} (h : offerId ∈ s.swaps) (secret : Hash) :
    (makeSwap C offerId secret).run s = .ok none s := by
  simp [makeSwap, idCollides, h]

/-- A step that raises changes the registry only when it makes a swap without a timer. -/
theorem Served.raised (h : Served C s input s' err) :
    (err ≠ none → s'.swaps = s.swaps) ↔ s.TimerFits input.event := by
  cases h with
  | @called _ i id secret call outs _ p p' hroute hi hstep =>
    refine iff_of_true (fun he => ?_) ?_
    · simp [Service.afterCall, hstep.raised he, Service.taken_swaps]
    · cases hevent : input.event with
      | commitment secret c =>
        rw [hevent, Service.route] at hroute
        obtain ⟨j, hj, -⟩ := Option.map_eq_some_iff.mp hroute
        exact .inl (AList.lookup_isSome.mp (by rw [hj]; rfl))
      | _ => trivial
  | @created now secret c outs _ hl hstep =>
    have hnot : c.offerId ∉ s.swaps := AList.lookup_eq_none.mp hl
    rw [Service.TimerFits, ← hstep.returns_makerCommitment]
    constructor
    · intro hraised
      refine .inr (by_contra fun he => hnot ?_)
      rw [← hraised he]
      simp [Service.created]
    · rintro (hmem | rfl) he
      · exact absurd hmem hnot
      · exact absurd rfl he
  | ignored _ hno =>
    refine iff_of_true (fun _ => Service.taken_swaps ..) ?_
    cases hevent : input.event with
    | commitment secret c => exact absurd hevent (hno secret c)
    | _ => trivial

theorem keepsRegistry_iff (hs : Registry C s) (input : ServiceInput) :
    KeepsRegistry C s input ↔ s.TimerFits input.event := by
  obtain ⟨s', err, hserved, hrun⟩ := served hs input
  have hstep : serviceStep C s input = s' := by rw [serviceStep, hrun, EStateM.Result.state_of]
  have hreturns : EStateM.Returns (process C input) s ↔ err = none := by
    rw [EStateM.Returns, hrun, EStateM.Result.returned_of, Option.isNone_iff_eq_none]
  rw [← hserved.raised]
  constructor
  · intro h he
    rw [← hstep]
    exact h.raised (mt hreturns.mp he)
  · intro hraised
    constructor <;> try rw [hstep]
    · exact (hs.served hserved).consistent
    · exact fun _ _ => hserved.removed hs
    · exact fun _ => hserved.finalized hs
    · exact fun _ => Service.made
    · exact fun _ => hserved.stale
    · exact fun hr => hraised (mt hreturns.mpr hr)

/-! ## Runs -/

theorem removes_iff (hs : Registry C s) (input : ServiceInput) (i : Nat) :
    Removes C i s input ↔ ¬ s.Processed i ∧ (serviceStep C s input).Processed i := by
  obtain ⟨s', err, hserved, hrun⟩ := served hs input
  have hstep : serviceStep C s input = s' := by rw [serviceStep, hrun, EStateM.Result.state_of]
  rw [Removes, hstep]
  constructor
  · rintro ⟨hreg, hnot⟩
    refine ⟨hs.not_processed hreg, ?_⟩
    obtain ⟨o, ho, hl⟩ := hreg
    rcases hserved.removed hs hl with ⟨hl', -⟩ | ⟨-, hp, -⟩
    · obtain ⟨o', ho', hid, -, -⟩ := hserved.objects_cases ho
      exact absurd ⟨o', ho', by rw [hid, hl']⟩ hnot
    · exact hp
  · rintro ⟨hlive, hp⟩
    exact hserved.finalized hs hlive hp

theorem removals_concat (is : List ServiceInput) (input : ServiceInput) (i : Nat) :
    removals C (is ++ [input]) i =
      removals C is i + if Removes C i (serviceRun C is) input then 1 else 0 := by
  rw [removals, removals, LTS.trace_concat, List.countP_append, List.countP_singleton]
  simp only [decide_eq_true_eq, serviceRun]
  congr

/-- A swap is taken out of the registry once, when it is processed. -/
theorem removals_eq (is : List ServiceInput) (i : Nat) :
    removals C is i = if (serviceRun C is).Processed i then 1 else 0 := by
  induction is using List.reverseRecOn with
  | nil => simp [removals, LTS.trace, Service.Processed, serviceRun, Service.init]
  | append_singleton is input ih =>
    have hs := registry_run (C := C) is
    obtain ⟨s', err, hserved, hrun⟩ := served hs input
    have hstep : serviceStep C (serviceRun C is) input = s' := by
      rw [serviceStep, hrun, EStateM.Result.state_of]
    have hlast : serviceRun C (is ++ [input]) = s' := (LTS.run_concat ..).trans hstep
    rw [removals_concat, ih]
    simp only [removes_iff hs, hlast, hstep]
    by_cases hp : (serviceRun C is).Processed i
    · simp [hp, hserved.processed hp]
    · simp [hp]

/-- In every run the registry is kept, and each processed swap was taken out of it once, exactly
when no first commitment has a timeout too large for a timer. -/
theorem registry_kept_iff (C : Crypto) (is : List ServiceInput) :
    (LTS.AllSteps (serviceStep C) (KeepsRegistry C) .init is ∧
      ∀ i, removals C is i = if (serviceRun C is).Processed i then 1 else 0) ↔
    LTS.AllSteps (serviceStep C) (fun s input => s.TimerFits input.event) .init is := by
  rw [and_iff_left (removals_eq is)]
  exact LTS.allSteps_congr .init (fun _ input hs => registry_step hs input)
    (fun _ input hs => keepsRegistry_iff hs input) is

/-- The step raises, and leaves a swap behind that no timer will end. -/
theorem late_commitment_registered :
    ¬ LTS.AllSteps (serviceStep .plain) (KeepsRegistry .plain) .init
      [{ now := 0, event := .commitment 0
          { commitmentOf (some 1) with timeout := maxTimestamp + 1 } }] := by
  intro h
  have hraised := (h _ (List.mem_singleton_self _)).raised (by decide +kernel)
  have hlookup := congrArg (AList.lookup 7) hraised
  revert hlookup
  decide +kernel

end CommitmentService
end Raidex
