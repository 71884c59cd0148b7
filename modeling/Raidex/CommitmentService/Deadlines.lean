import Raidex.CommitmentService.Reuse
import Raidex.CommitmentService.Solvency

/-!
# Raidex.CommitmentService.Deadlines

No deposit stays at the commitment service for longer than the timer of its swap runs.

* `Timed`: the live swaps that have a timer are those whose maker gave a timeout that fits one.
* `Phase.Step.deposits`: one call leaves what a swap holds there, queues it for refund or lets it
  be forfeited.
* `Settles`: what has become of a swap since an earlier moment.
* `swaps_settled`: once the timer of a swap has fired, whatever happened before and after, the
  swap is processed and taken out of the registry, and its deposits are queued for refund or
  forfeited; a swap whose timeout fits no timer never gets one.
-/

namespace Raidex
namespace CommitmentService

open scoped List

variable {C : Crypto}

/-- The timeout of the maker fits a timer. -/
def SwapCommitment.TimerFits (o : SwapCommitment) : Prop :=
  ∀ c ∈ o.makerCommitmentMsg, c.timeout ≤ maxTimestamp

instance (o : SwapCommitment) : Decidable o.TimerFits :=
  inferInstanceAs (Decidable (∀ c ∈ o.makerCommitmentMsg, _))

/-! ## One call -/

section

variable {offerId now : Nat} {secret : Hash} {p p' : Phase C} {call : Call} {outs : List Output}
  {err : Option PyError}

/-- Only the first call of a swap spawns a timer and sets the commitment of its maker. -/
theorem Phase.Step.spawned (h : Phase.Step true offerId secret now p call p' outs err)
    (hinit : (p.toSwap offerId secret).state ≠ .initializing) (i : Nat) :
    CommitmentService.spawned i outs = [] ∧
      (p'.toSwap offerId secret).makerCommitmentMsg =
        (p.toSwap offerId secret).makerCommitmentMsg := by
  cases h with
  | makerCommitted _ | makerCommittedTooLate _ _ | abandoned _ => exact absurd rfl hinit
  | _ => exact ⟨rfl, rfl⟩

theorem Phase.Step.spawned_first {c : Commitment}
    (h : Phase.Step true offerId secret now (.initializing : Phase C) (.makerCommitment c) p' outs
      err) (i j : Nat) :
    j ∈ CommitmentService.spawned i outs ↔ j = i ∧ c.timeout ≤ maxTimestamp := by
  cases h with
  | undeclared hno => cases hno
  | makerCommitted hfits => simp [CommitmentService.spawned, hfits rfl]
  | makerCommittedTooLate _ hlate => simp [CommitmentService.spawned, hlate]
  | abandoned htimeout => cases htimeout

/-- A timeout processes a swap in whatever phase it is. -/
theorem Phase.Step.timeout (h : Phase.Step true offerId secret now p call p' outs err)
    (htimeout : call.trigger = .timeout) :
    (p'.toSwap offerId secret).state = .processed := by
  cases h with
  | undeclared hno =>
    rw [htimeout] at hno
    cases p <;> first | rfl | cases hno
  | abandoned _ | uncommitted _ | untraded _ | failed _ => rfl
  | _ => cases htimeout

/-- What is at a swap stays there, is queued for refund or is forfeited. -/
theorem Phase.Step.deposits (h : Phase.Step true offerId secret now p call p' outs err) :
    (p.toSwap offerId secret).places <+~
      (p'.toSwap offerId secret).places ++ (refunds outs).map Refund.receipt := by
  cases h with
  | failed _ | takerCompleted | makerCompleted =>
    rw [Phase.places_executing]
    exact .refl _
  | makerExecuted | takerExecuted _ =>
    simp only [Phase.places_executing]
    exact .refl _
  | makerDeposited => exact List.nil_subperm
  | @takerDeposited e => exact (List.sublist_append_left [e.maker.receipt] _).subperm
  | _ => exact (List.sublist_append_left ..).subperm

end

/-! ## Timers -/

/-- The timers are of swaps whose timeout fits, and all of these that are live have one. -/
structure Timed (C : Crypto) (s : Service) : Prop where
  registry : Registry C s
  armed : ∀ i ∈ s.timers, ∃ o, s.objects[i]? = some o ∧ o.TimerFits
  timed : ∀ (i : Nat) o, s.objects[i]? = some o → o.state ≠ .processed → o.TimerFits →
    i ∈ s.timers

section

variable {s s' : Service} {input : ServiceInput} {err : Option PyError}

theorem Timed.init : Timed C .init where
  registry := .init
  armed i hi := by cases hi
  timed i o ho := by simp [Service.init] at ho

theorem Service.mem_taken {i : Nat} {e : ServiceEvent} (h : i ∈ (s.taken e).timers) :
    i ∈ s.timers := by
  cases e with
  | timer j => exact List.mem_of_mem_erase h
  | _ => exact h

/-- An event takes no other timer than the one that fires. -/
theorem Service.mem_taken_of_ne {i : Nat} {e : ServiceEvent} (h : i ∈ s.timers)
    (hne : e ≠ .timer i) : i ∈ (s.taken e).timers := by
  cases e with
  | timer j =>
    have hij : i ≠ j := fun hij => hne (by rw [hij])
    exact (List.mem_erase_of_ne hij).mpr h
  | _ => exact h

theorem Served.timed (hs : Timed C s) (h : Served C s input s' err) : Timed C s' := by
  have hregistry := hs.registry.served h
  cases h with
  | @called _ j offerId secret call outs _ p p' hroute hj hstep =>
    obtain ⟨hspawned, hcommitment⟩ := hstep.spawned (hs.registry.not_initializing hj) j
    have hfits : (p'.toSwap offerId secret).TimerFits ↔ (p.toSwap offerId secret).TimerFits := by
      rw [SwapCommitment.TimerFits, SwapCommitment.TimerFits, hcommitment]
    have htimers : ((s.taken input.event).afterCall j (p'.toSwap offerId secret) outs).timers =
        (s.taken input.event).timers := by
      rw [Service.afterCall, hspawned, List.append_nil]
    refine ⟨hregistry, ?_, ?_⟩
    · intro i hi
      rw [htimers] at hi
      obtain ⟨o, ho, hfitsTimer⟩ := hs.armed i (Service.mem_taken hi)
      simp only [Service.afterCall, Service.taken_objects]
      by_cases hij : i = j
      · subst hij
        cases ho.symm.trans hj
        exact ⟨_, List.getElem?_set_self (List.getElem?_eq_some_iff.mp ho).1, hfits.mpr hfitsTimer⟩
      · exact ⟨o, (List.getElem?_set_ne (Ne.symm hij)).trans ho, hfitsTimer⟩
    · intro i o ho hlive hfitsTimer
      rw [htimers]
      simp only [Service.afterCall, Service.taken_objects] at ho
      -- the swap whose timer fires is processed
      have hother : input.event ≠ .timer i := by
        intro he
        rw [he] at hroute
        simp only [Service.route] at hroute
        split at hroute <;> cases hroute
        rcases List.getElem?_set_cases ho with ⟨-, rfl⟩ | ⟨hne, -⟩
        · exact hlive (hstep.timeout rfl)
        · exact hne rfl
      refine Service.mem_taken_of_ne ?_ hother
      rcases List.getElem?_set_cases ho with ⟨rfl, rfl⟩ | ⟨-, ho⟩
      · refine hs.timed i _ hj (fun hprocessed => hlive ?_) (hfits.mp hfitsTimer)
        rw [hstep.processed hprocessed, hprocessed]
      · exact hs.timed i o ho hlive hfitsTimer
  | @created now secret c outs _ hl hstep =>
    have hnew := hstep.spawned_first s.objects.length
    refine ⟨hregistry, ?_, ?_⟩
    · intro i hi
      rcases List.mem_append.mp hi with hi | hi
      · obtain ⟨o, ho, hfits⟩ := hs.armed i hi
        have hlt := (List.getElem?_eq_some_iff.mp ho).1
        exact ⟨o, (List.getElem?_append_left hlt).trans ho, hfits⟩
      · obtain ⟨rfl, hfits⟩ := (hnew i).mp hi
        refine ⟨_, List.getElem?_concat_length, ?_⟩
        simpa [SwapCommitment.TimerFits, Phase.toSwap] using hfits
    · intro i o ho hlive hfits
      refine List.mem_append.mpr ?_
      rcases List.getElem?_concat_cases ho with ⟨-, ho⟩ | ⟨rfl, rfl⟩
      · exact .inl (hs.timed i o ho hlive hfits)
      · exact .inr ((hnew _).mpr ⟨rfl, hfits c rfl⟩)
  | ignored hroute hno =>
    refine ⟨hregistry, ?_, ?_⟩
    · intro i hi
      rw [Service.taken_objects]
      exact hs.armed i (Service.mem_taken hi)
    · intro i o ho hlive hfits
      rw [Service.taken_objects] at ho
      have hi := hs.timed i o ho hlive hfits
      refine Service.mem_taken_of_ne hi ?_
      intro he
      have hlt := (List.getElem?_eq_some_iff.mp ho).1
      rw [he] at hroute
      simp [Service.route, hi, hlt] at hroute

theorem timed_step (hs : Timed C s) (input : ServiceInput) : Timed C (serviceStep C s input) := by
  obtain ⟨s', err, hserved, hrun⟩ := served hs.registry input
  rw [serviceStep, hrun, EStateM.Result.state_of]
  exact hserved.timed hs

theorem timed_run (C : Crypto) (is : List ServiceInput) : Timed C (serviceRun C is) :=
  LTS.run_invariant (serviceStep C) (fun _ s => Timed C s) .init
    (fun _ _ input hs => timed_step hs input) is

end

/-! ## What becomes of a swap -/

/-- The transfers of the refunds that were queued since the state `s`. -/
def Service.queuedSince (s' s : Service) : List TransferReceipt :=
  (s'.refundQueue.drop s.refundQueue.length).map Refund.receipt

/-- Since the state `s₀`, in which swap `i` was `o`. -/
structure Tracks (C : Crypto) (s₀ : Service) (i : Nat) (o : SwapCommitment) (s : Service) :
    Prop where
  timed : Timed C s
  grown : s₀.refundQueue <+: s.refundQueue
  object : ∃ o', s.objects[i]? = some o' ∧ (o'.TimerFits ↔ o.TimerFits) ∧
    o.places <+~ o'.places ++ s.queuedSince s₀

section

variable {s₀ s s' : Service} {input : ServiceInput} {err : Option PyError} {i : Nat}
  {o : SwapCommitment}

theorem Service.queuedSince_append (h : s₀.refundQueue <+: s.refundQueue) (rs : List Refund)
    (hqueue : s'.refundQueue = s.refundQueue ++ rs) :
    s'.queuedSince s₀ = s.queuedSince s₀ ++ rs.map Refund.receipt := by
  rw [queuedSince, hqueue, List.drop_append_of_le_length h.length_le, List.map_append, queuedSince]

theorem Served.tracks (hs : Tracks C s₀ i o s) (h : Served C s input s' err) :
    Tracks C s₀ i o s' := by
  have htimed := h.timed hs.timed
  have hgrown := hs.grown.trans h.refundQueue_prefix
  obtain ⟨o', ho', hfits, hplaces⟩ := hs.object
  refine ⟨htimed, hgrown, ?_⟩
  cases h with
  | @called _ j offerId secret call outs _ p p' hroute hj hstep =>
    have hqueue : ((s.taken input.event).afterCall j (p'.toSwap offerId secret) outs).refundQueue =
        s.refundQueue ++ refunds outs := by
      rw [Service.afterCall]
      cases input.event <;> rfl
    rw [Service.queuedSince_append hs.grown _ hqueue]
    simp only [Service.afterCall, Service.taken_objects]
    by_cases hij : i = j
    · subst hij
      cases ho'.symm.trans hj
      obtain ⟨-, hcommitment⟩ := hstep.spawned (hs.timed.registry.not_initializing hj) i
      refine ⟨_, List.getElem?_set_self (List.getElem?_eq_some_iff.mp hj).1, ?_, ?_⟩
      · rw [← hfits, SwapCommitment.TimerFits, SwapCommitment.TimerFits, hcommitment]
      · have hdeposits := hstep.deposits
        rw [List.subperm_iff_count] at hplaces hdeposits ⊢
        intro r
        have h₁ := hplaces r
        have h₂ := hdeposits r
        simp only [List.count_append] at h₁ h₂ ⊢
        omega
    · refine ⟨o', (List.getElem?_set_ne (Ne.symm hij)).trans ho', hfits, hplaces.trans ?_⟩
      rw [← List.append_assoc]
      exact (List.sublist_append_left ..).subperm
  | created hl hstep =>
    have hlt := (List.getElem?_eq_some_iff.mp ho').1
    exact ⟨o', (List.getElem?_append_left hlt).trans ho', hfits, hplaces⟩
  | ignored hroute hno =>
    rw [Service.taken_objects]
    refine ⟨o', ho', hfits, ?_⟩
    cases he : input.event <;> exact hplaces

theorem tracks_step (hs : Tracks C s₀ i o s) (input : ServiceInput) :
    Tracks C s₀ i o (serviceStep C s input) := by
  obtain ⟨s', err, hserved, hrun⟩ := served hs.timed.registry input
  rw [serviceStep, hrun, EStateM.Result.state_of]
  exact hserved.tracks hs

/-- The timer of a swap processes it. -/
theorem processed_of_timer (hs : Timed C s) (ho : s.objects[i]? = some o) (hfits : o.TimerFits)
    (htimer : input.event = .timer i) : (serviceStep C s input).Processed i := by
  obtain ⟨s', err, hserved, hrun⟩ := served hs.registry input
  rw [serviceStep, hrun, EStateM.Result.state_of]
  by_cases hlive : o.state = .processed
  · exact hserved.processed ⟨o, ho, hlive⟩
  have hi := hs.timed i o ho hlive hfits
  have hlt := (List.getElem?_eq_some_iff.mp ho).1
  have hfires : s.route input.event = some (i, .timeout) := by
    rw [htimer, Service.route, if_pos ⟨hi, hlt⟩]
  cases hserved with
  | @called _ j offerId secret call outs _ p p' hroute hj hstep =>
    cases hfires.symm.trans hroute
    refine ⟨_, ?_, hstep.timeout rfl⟩
    rw [Service.afterCall, Service.taken_objects]
    exact List.getElem?_set_self hlt
  | created _ _ => cases htimer
  | ignored hroute _ => cases hfires.symm.trans hroute

end

/-- Swap `i`, which was `o` in the state `s`, is processed and out of the registry, and its
deposits are queued for refund or forfeited. -/
structure Settled (s s' : Service) (i : Nat) (o : SwapCommitment) : Prop where
  processed : s'.Processed i
  removed : ¬ s'.Registered i
  deposits : ∃ o' ∈ s'.objects[i]?, o.deposits <+~ o'.forfeited ++ s'.queuedSince s

/-- A swap that is live at some moment has a timer exactly if the timeout of its maker fits one.
In every run in which this timer fires later on, the swap is settled in the end. A timeout that
does not fit never gets a timer. -/
theorem swaps_settled (C : Crypto) (is js : List ServiceInput) {i : Nat} {o : SwapCommitment}
    (ho : (serviceRun C is).objects[i]? = some o) (hlive : o.state ≠ .processed) :
    (i ∈ (serviceRun C is).timers ↔ o.TimerFits) ∧
    (o.TimerFits → (∃ input ∈ js, input.event = .timer i) →
      Settled (serviceRun C is) (serviceRun C (is ++ js)) i o) ∧
    (¬ o.TimerFits → i ∉ (serviceRun C (is ++ js)).timers) := by
  have htimed := timed_run C is
  have hstart : Tracks C (serviceRun C is) i o (serviceRun C is) :=
    ⟨htimed, List.prefix_rfl, o, ho, .rfl, (List.sublist_append_left ..).subperm⟩
  have hrun : serviceRun C (is ++ js) = LTS.run (serviceStep C) (serviceRun C is) js :=
    LTS.run_append ..
  have harmed {s : Service} {o' : SwapCommitment} (hs : Timed C s) (hi : i ∈ s.timers)
      (ho' : s.objects[i]? = some o') : o'.TimerFits := by
    obtain ⟨o'', ho'', hfits⟩ := hs.armed i hi
    cases ho'.symm.trans ho''
    exact hfits
  refine ⟨⟨fun hi => harmed htimed hi ho, htimed.timed i o ho hlive⟩, ?_, ?_⟩
  · intro hfits hfires
    have hend : Tracks C (serviceRun C is) i o (serviceRun C (is ++ js)) ∧
        (serviceRun C (is ++ js)).Processed i := by
      rw [hrun]
      refine LTS.run_ensures (K := fun input => input.event = .timer i)
        (P := Tracks C (serviceRun C is) i o)
        (Q := fun s => Tracks C (serviceRun C is) i o s ∧ s.Processed i)
        (fun s input hs => .inl (tracks_step hs input)) ?_ ?_ hstart hfires
      · intro s input hs htimer
        obtain ⟨o', ho', hfits', -⟩ := hs.object
        exact ⟨tracks_step hs input, processed_of_timer hs.timed ho' (hfits'.mpr hfits) htimer⟩
      · rintro s input ⟨hs, hprocessed⟩
        obtain ⟨s', err, hserved, hstep⟩ := served hs.timed.registry input
        refine ⟨tracks_step hs input, ?_⟩
        rw [serviceStep, hstep, EStateM.Result.state_of]
        exact hserved.processed hprocessed
    obtain ⟨htracks, o', ho', hprocessed⟩ := hend
    refine ⟨⟨o', ho', hprocessed⟩, ?_, o', ho', ?_⟩
    · exact fun hr => htracks.timed.registry.not_processed hr ⟨o', ho', hprocessed⟩
    · obtain ⟨o'', ho'', -, hplaces⟩ := htracks.object
      cases ho'.symm.trans ho''
      rw [SwapCommitment.places, SwapCommitment.places, if_neg hlive, if_pos hprocessed] at hplaces
      exact (List.sublist_append_left ..).subperm.trans hplaces
  · intro hno hi
    have htracks : Tracks C (serviceRun C is) i o (serviceRun C (is ++ js)) := by
      rw [hrun]
      exact LTS.run_invariant (serviceStep C) (fun _ s => Tracks C (serviceRun C is) i o s) hstart
        (fun _ _ input hs => tracks_step hs input) js
    obtain ⟨o', ho', hfits, -⟩ := htracks.object
    exact hno (hfits.mp (harmed htracks.timed hi ho'))

/-- Maker `1` has made its deposit; taker `2` commits and makes no deposit. -/
def madeInputs : List ServiceInput :=
  [.commitment 0 (commitmentOf (some 1)), .transferReceipt (depositOf 1)].map
    fun event => { now := 0, event := event }

def untakenInputs : List ServiceInput :=
  [.commitment 0 (commitmentOf (some 2)), .timer 0].map fun event => { now := 0, event := event }

/-- The swap while it waits for a taker. -/
def untakenSwap : SwapCommitment :=
  ((serviceRun .plain madeInputs).objects[0]?).get (by decide +kernel)

theorem untaken_swap_settled : untakenSwap.deposits = [depositOf 1] ∧
    Settled (serviceRun .plain madeInputs) (serviceRun .plain (madeInputs ++ untakenInputs)) 0
      untakenSwap :=
  ⟨by decide +kernel, (swaps_settled .plain madeInputs untakenInputs (Option.some_get _).symm
    (by decide +kernel)).2.1 (by decide +kernel)
      ⟨_, List.mem_cons_of_mem _ List.mem_cons_self, rfl⟩⟩

end CommitmentService
end Raidex
