import Raidex.Lib.ListUpdate
import Raidex.CommitmentService.Tasks

/-!
# Raidex.CommitmentService.Registry

What one input does to the service.

* `Registry`: the registry names exactly the swaps that are not processed, each by its offer id.
* `Served`: the ways an input can go: it calls a swap, makes one, or is ignored.
* `served`: every input of a service with a sound registry is served.
* `registry_run`: the registry is sound in every reachable state.
-/

namespace Raidex
namespace CommitmentService

variable {C : Crypto}

/-! ## Life of a swap -/

@[simp] theorem Phase.toSwap_offerId (p : Phase C) (offerId : Nat) (secret : Hash) :
    (p.toSwap offerId secret).offerId = offerId := by
  cases p <;> rfl

/-- The cleanup is the last output, of exactly the call that processes the swap. -/
theorem Phase.Step.cleanup {autoSpawnTimeout : Bool} {offerId now : Nat} {secret : Hash}
    {p p' : Phase C} {call : Call} {outs : List Output} {err : Option PyError}
    (h : Phase.Step autoSpawnTimeout offerId secret now p call p' outs err) :
    (.cleanup ∉ outs ∧ ((p'.toSwap offerId secret).state = .processed ↔
        (p.toSwap offerId secret).state = .processed)) ∨
    (∃ quiet, outs = quiet ++ [.cleanup] ∧ .cleanup ∉ quiet ∧
      (p.toSwap offerId secret).state ≠ .processed ∧
      (p'.toSwap offerId secret).state = .processed) := by
  have hlive {e : Engagement C} {x : Executed e} :
      ((Phase.executing e x).toSwap offerId secret).state ≠ .processed := by
    cases x <;> exact nofun
  cases h with
  | abandoned _ | uncommitted _ => exact .inr ⟨[], rfl, by simp, nofun, rfl⟩
  | untraded _ => exact .inr ⟨[_, _], rfl, by simp [bounce, sendCancellationProof], nofun, rfl⟩
  | takerCompleted | makerCompleted =>
    exact .inr ⟨[_, _, _], rfl, by simp [broadcastCompleted, refundWithFee], hlive, rfl⟩
  | failed _ => exact .inr ⟨[], rfl, by simp, hlive, rfl⟩
  | makerCommitted _ =>
    refine .inl ⟨?_, iff_of_false nofun nofun⟩
    split <;> simp
  | makerDeposited | takerDeposited =>
    exact .inl ⟨by simp [sendProof, broadcastOfferTaken], iff_of_false nofun nofun⟩
  | makerBounced _ _ | takerBounced _ | executionBounced => exact .inl ⟨by simp [bounce], .rfl⟩
  | makerExecuted | takerExecuted _ => exact .inl ⟨by simp, iff_of_false hlive hlive⟩
  | makerCommittedTooLate _ _ | takerQueued _ _ =>
    exact .inl ⟨by simp, iff_of_false nofun nofun⟩
  | _ => exact .inl ⟨by simp, .rfl⟩

theorem Phase.Step.not_initializing {autoSpawnTimeout : Bool} {offerId now : Nat} {secret : Hash}
    {p p' : Phase C} {call : Call} {outs : List Output} {err : Option PyError}
    (h : Phase.Step autoSpawnTimeout offerId secret now p call p' outs err)
    (hp : (p.toSwap offerId secret).state ≠ .initializing) :
    (p'.toSwap offerId secret).state ≠ .initializing := by
  cases h with
  | makerExecuted | takerExecuted _ | takerDeposited => exact nofun
  | undeclared _ | executionIgnored _ _ | executionUnrecoverable _ | executionBounced => exact hp
  | _ => exact nofun

/-! ## Outputs -/

/-- The timers that outputs of swap `i` spawn. -/
def spawned (i : Nat) (outs : List Output) : List Nat :=
  outs.filterMap fun o => match o with
    | .spawnTimeout _ => some i
    | _ => none

/-- The service after a call of swap `i` that left `swap` behind and had the outputs `outs`. -/
def Service.afterCall (s : Service) (i : Nat) (swap : SwapCommitment) (outs : List Output) :
    Service where
  objects := s.objects.set i swap
  swaps := if .cleanup ∈ outs then s.swaps.erase swap.offerId else s.swaps
  refundQueue := s.refundQueue ++ refunds outs
  messageQueue := s.messageQueue ++ sent outs
  timers := s.timers ++ spawned i outs

theorem performAll_append (i offerId : Nat) {outs : List Output} (h : .cleanup ∉ outs)
    (os : List Output) (s : Service) :
    (performAll i offerId (outs ++ os)).run s =
      (performAll i offerId os).run
        { s with refundQueue := s.refundQueue ++ refunds outs
                 messageQueue := s.messageQueue ++ sent outs
                 timers := s.timers ++ spawned i outs } := by
  induction outs generalizing s with
  | nil => simp [refunds, sent, spawned]
  | cons o outs ih =>
    have hos : .cleanup ∉ outs := fun hmem => h (List.mem_cons_of_mem _ hmem)
    cases o with
    | cleanup => exact absurd (List.mem_cons_self ..) h
    | _ =>
      simp [performAll, perform, ih hos, refunds, sent, spawned, Output.toRefund, Output.envelope,
        List.filterMap_cons]

/-- The outputs of a step of a registered swap are performed without an error. -/
theorem performAll_step {offerId now : Nat} {secret : Hash} {p p' : Phase C} {call : Call}
    {outs : List Output} {err : Option PyError} {i : Nat} {s : Service}
    (h : Phase.Step true offerId secret now p call p' outs err)
    (hreg : (p.toSwap offerId secret).state ≠ .processed → offerId ∈ s.swaps) :
    (performAll i offerId outs).run { s with objects := s.objects.set i (p'.toSwap offerId secret) }
      = .ok () (s.afterCall i (p'.toSwap offerId secret) outs) := by
  rcases h.cleanup with ⟨hno, -⟩ | ⟨quiet, rfl, hno, hlive, -⟩
  · have hrun := performAll_append i offerId hno []
      { s with objects := s.objects.set i (p'.toSwap offerId secret) }
    rw [List.append_nil] at hrun
    rw [hrun]
    simp [performAll, Service.afterCall, hno]
  · rw [performAll_append i offerId hno]
    simp [performAll, perform, cleanupSwap, hreg hlive, Service.afterCall, refunds, sent, spawned,
      Output.toRefund, Output.envelope, List.filterMap_cons]

/-- A call of a swap in phase `p`, registered unless it is processed. -/
theorem callSwap_step {i : Nat} (offerId : Nat) (secret : Hash) (p : Phase C) {s : Service}
    (ho : s.objects[i]? = some (p.toSwap offerId secret))
    (hreg : (p.toSwap offerId secret).state ≠ .processed → offerId ∈ s.swaps)
    (now : Nat) (call : Call) :
    ∃ p' outs err, Phase.Step true offerId secret now p call p' outs err ∧
      (callSwap C i now call).run s =
        .of err (s.afterCall i (p'.toSwap offerId secret) outs) := by
  obtain ⟨p', outs, err, hstep, hrun⟩ :=
    hand_step true p call offerId secret now []
  refine ⟨p', outs, err, hstep, ?_⟩
  have hperform := performAll_step (i := i) (s := s) hstep hreg
  rw [callSwap, EStateM.run_bind, EStateM.run_get]
  simp only [ho, hrun, List.nil_append, Phase.toSwap_offerId]
  cases err with
  | none => exact (EStateM.run_seq_ok rfl).trans hperform
  | some e => exact (EStateM.run_seq_ok rfl).trans (EStateM.run_seq_ok hperform)

/-! ## The registry -/

variable (C) in
/-- The registry names the swaps that are not processed, each by its offer id. -/
structure Registry (s : Service) : Prop where
  phases : ∀ (i : Nat) o, s.objects[i]? = some o →
    ∃ offerId secret, ∃ p : Phase C, o = p.toSwap offerId secret
  registered : ∀ offerId i, s.swaps.lookup offerId = some i →
    ∃ o, s.objects[i]? = some o ∧ o.offerId = offerId ∧ o.state ≠ .processed ∧
      o.state ≠ .initializing
  live : ∀ (i : Nat) o, s.objects[i]? = some o → o.state ≠ .processed →
    s.swaps.lookup o.offerId = some i

/-- The swap an input calls, and how. -/
def Service.route (s : Service) : ServiceEvent → Option (Nat × Call)
  | .commitment _ c => (s.swaps.lookup c.offerId).map fun i => (i, .takerCommitment c)
  | .transferReceipt r => (s.swaps.lookup r.identifier).map fun i => (i, .transferReceipt r)
  | .swapExecution e => (s.swaps.lookup e.offerId).map fun i => (i, .swapExecution e)
  | .cancellation m => (s.swaps.lookup m.offerId).map fun i => (i, .cancellation)
  | .timer i => if i ∈ s.timers ∧ i < s.objects.length then some (i, .timeout) else none

/-- The service without the timer that fires. -/
def Service.taken (s : Service) : ServiceEvent → Service
  | .timer i => { s with timers := s.timers.erase i }
  | _ => s

/-- The service after a first commitment made a swap of it. -/
def Service.created (s : Service) (swap : SwapCommitment) (outs : List Output) : Service :=
  { s with objects := s.objects ++ [swap]
           swaps := s.swaps.insert swap.offerId s.objects.length
           timers := s.timers ++ spawned s.objects.length outs }

variable (C) in
/-- The ways an input can go. -/
inductive Served (s : Service) : ServiceInput → Service → Option PyError → Prop
  | called {input i offerId secret call outs err} {p p' : Phase C} :
      s.route input.event = some (i, call) → s.objects[i]? = some (p.toSwap offerId secret) →
      Phase.Step true offerId secret input.now p call p' outs err →
      Served s input
        ((s.taken input.event).afterCall i (p'.toSwap offerId secret) outs) err
  | created {now secret c outs err} : s.swaps.lookup c.offerId = none →
      Phase.Step true c.offerId secret now (.initializing : Phase C) (.makerCommitment c)
        (.waitForMaker c) outs err →
      Served s { now := now, event := .commitment secret c }
        (s.created ((Phase.waitForMaker c : Phase C).toSwap c.offerId secret) outs) err
  | ignored {input} : s.route input.event = none →
      (∀ secret c, input.event ≠ .commitment secret c) →
      Served s input (s.taken input.event) none

theorem Registry.mem_of_live {s : Service} (hs : Registry C s) {i : Nat} {o : SwapCommitment}
    (ho : s.objects[i]? = some o) (hlive : o.state ≠ .processed) : o.offerId ∈ s.swaps :=
  AList.lookup_isSome.mp (by rw [hs.live i o ho hlive]; rfl)

theorem served_call {s : Service} (hs : Registry C s) {input : ServiceInput} {i : Nat} {call : Call}
    (hroute : s.route input.event = some (i, call)) {o : SwapCommitment}
    (ho : s.objects[i]? = some o)
    (hprocess : (process C input).run s = (callSwap C i input.now call).run (s.taken input.event)) :
    ∃ s' err, Served C s input s' err ∧ (process C input).run s = .of err s' := by
  obtain ⟨offerId, secret, p, rfl⟩ := hs.phases i o ho
  have htaken : (s.taken input.event).objects = s.objects ∧
      (s.taken input.event).swaps = s.swaps := by
    cases input.event <;> exact ⟨rfl, rfl⟩
  obtain ⟨p', outs, err, hstep, hrun⟩ := callSwap_step (s := s.taken input.event)
    offerId secret p (by rw [htaken.1]; exact ho)
    (fun hlive => by
      have hmem := hs.mem_of_live ho hlive
      rwa [Phase.toSwap_offerId, ← htaken.2] at hmem) input.now call
  exact ⟨_, err, .called hroute ho hstep, hprocess.trans hrun⟩

theorem Registry.object {s : Service} (hs : Registry C s) {offerId i : Nat}
    (h : s.swaps.lookup offerId = some i) : ∃ o, s.objects[i]? = some o := by
  obtain ⟨o, ho, -⟩ := hs.registered offerId i h
  exact ⟨o, ho⟩

theorem processCommitment_created {s : Service} (now : Nat) (secret : Hash) {c : Commitment}
    (h : s.swaps.lookup c.offerId = none) : ∃ outs err,
      Phase.Step true c.offerId secret now (.initializing : Phase C) (.makerCommitment c)
        (.waitForMaker c) outs err ∧
      (processCommitment C now secret c).run s =
        .of err (s.created ((Phase.waitForMaker c : Phase C).toSwap c.offerId secret) outs) := by
  let s₁ : Service := { s with objects := s.objects ++ [.new C c.offerId secret]
                               swaps := s.swaps.insert c.offerId s.objects.length }
  have hnot : c.offerId ∉ s.swaps := AList.lookup_eq_none.mp h
  have hmake : (makeSwap C c.offerId secret).run s = .ok (some s.objects.length) s₁ := by
    simp [makeSwap, idCollides, hnot, s₁]
  obtain ⟨p', outs, err, hstep, hrun⟩ := callSwap_step (C := C) (s := s₁) (i := s.objects.length)
    c.offerId secret .initializing
    (by simp [s₁, Phase.toSwap]) (fun _ => by simp [s₁]) now (.makerCommitment c)
  have hcall : (processCommitment C now secret c).run s =
      (callSwap C s.objects.length now (.makerCommitment c)).run s₁ := by
    rw [processCommitment, EStateM.run_bind, EStateM.run_get]
    simp only [h]
    exact EStateM.run_seq_ok hmake
  have hafter (hp : p' = .waitForMaker c) (hno : .cleanup ∉ outs) (hrefunds : refunds outs = [])
      (hsent : sent outs = []) :
      s₁.afterCall s.objects.length (p'.toSwap c.offerId secret) outs =
        s.created ((Phase.waitForMaker c : Phase C).toSwap c.offerId secret) outs := by
    simp [hp, hno, hrefunds, hsent, Service.afterCall, Service.created, s₁]
  cases hstep with
  | undeclared hacc => cases hacc
  | makerCommitted hok =>
    refine ⟨_, _, .makerCommitted hok, ?_⟩
    rw [hcall, hrun, hafter rfl (by simp) rfl rfl]
  | makerCommittedTooLate hauto hlate =>
    refine ⟨_, _, .makerCommittedTooLate hauto hlate, ?_⟩
    rw [hcall, hrun, hafter rfl (by simp) rfl rfl]
  | abandoned htr => cases htr

/-- Every input of a service with a sound registry is served. -/
theorem served {s : Service} (hs : Registry C s) (input : ServiceInput) :
    ∃ s' err, Served C s input s' err ∧ (process C input).run s = .of err s' := by
  obtain ⟨now, event⟩ := input
  cases event with
  | commitment secret c =>
    cases hl : s.swaps.lookup c.offerId with
    | some i =>
      obtain ⟨o, ho⟩ := hs.object hl
      refine served_call hs (by simp [Service.route, hl]; rfl) ho ?_
      simp [process, processCommitment, hl, Service.taken]
    | none =>
      obtain ⟨outs, err, hstep, hrun⟩ := processCommitment_created now secret hl
      exact ⟨_, err, .created hl hstep, hrun⟩
  | transferReceipt r =>
    cases hl : s.swaps.lookup r.identifier with
    | some i =>
      obtain ⟨o, ho⟩ := hs.object hl
      refine served_call hs (by simp [Service.route, hl]; rfl) ho ?_
      simp [process, processTransferReceived, hl, Service.taken]
    | none =>
      refine ⟨s, none, .ignored (by simp [Service.route, hl]) (by simp), ?_⟩
      simp [process, processTransferReceived, hl]; rfl
  | swapExecution e =>
    cases hl : s.swaps.lookup e.offerId with
    | some i =>
      obtain ⟨o, ho⟩ := hs.object hl
      refine served_call hs (by simp [Service.route, hl]; rfl) ho ?_
      simp [process, processSwapExecution, hl, Service.taken]
    | none =>
      refine ⟨s, none, .ignored (by simp [Service.route, hl]) (by simp), ?_⟩
      simp [process, processSwapExecution, hl]; rfl
  | cancellation m =>
    cases hl : s.swaps.lookup m.offerId with
    | some i =>
      obtain ⟨o, ho⟩ := hs.object hl
      refine served_call hs (by simp [Service.route, hl]; rfl) ho ?_
      simp [process, processCancellationRequest, hl, Service.taken]
    | none =>
      refine ⟨s, none, .ignored (by simp [Service.route, hl]) (by simp), ?_⟩
      simp [process, processCancellationRequest, hl]; rfl
  | timer i =>
    by_cases hi : i ∈ s.timers
    · cases ho : s.objects[i]? with
      | some o =>
        have hlt : i < s.objects.length := (List.getElem?_eq_some_iff.mp ho).1
        refine served_call hs (by simp [Service.route, hi, hlt]; rfl) ho ?_
        simp [process, fireTimer, hi, Service.taken]
      | none =>
        have hlt : ¬ i < s.objects.length := fun hlt => by simp [hlt] at ho
        refine ⟨_, none, .ignored (by simp [Service.route, hlt]) (by simp), ?_⟩
        simp [process, fireTimer, hi, callSwap, ho, Service.taken]; rfl
    · refine ⟨_, none, .ignored (by simp [Service.route, hi]) (by simp), ?_⟩
      simp [process, fireTimer, hi, Service.taken, List.erase_of_not_mem]; rfl

/-! ## Reachable states -/

theorem Registry.init : Registry C .init where
  phases i o h := by simp [Service.init] at h
  registered offerId i h := by simp [Service.init] at h
  live i o h := by simp [Service.init] at h

/-- Timers and queues do not matter to the registry. -/
theorem Registry.congr {s s' : Service} (hs : Registry C s) (ho : s'.objects = s.objects)
    (hr : s'.swaps = s.swaps) : Registry C s' where
  phases := by rw [ho]; exact hs.phases
  registered := by rw [ho, hr]; exact hs.registered
  live := by rw [ho, hr]; exact hs.live

theorem Registry.created {s : Service} (hs : Registry C s) {c : Commitment} {secret : Hash}
    {outs : List Output} (h : s.swaps.lookup c.offerId = none) :
    Registry C
      (s.created ((Phase.waitForMaker c : Phase C).toSwap c.offerId secret) outs) where
  phases i o ho := by
    rcases List.getElem?_concat_cases ho with ⟨-, ho⟩ | ⟨-, rfl⟩
    · exact hs.phases i o ho
    · exact ⟨_, _, _, rfl⟩
  registered offerId i hi := by
    by_cases he : offerId = c.offerId
    · subst he
      rw [Service.created, Phase.toSwap_offerId, AList.lookup_insert] at hi
      cases hi
      exact ⟨_, List.getElem?_concat_length .., rfl, nofun, nofun⟩
    · rw [Service.created, Phase.toSwap_offerId, AList.lookup_insert_ne he] at hi
      obtain ⟨o, ho, hrest⟩ := hs.registered offerId i hi
      refine ⟨o, ?_, hrest⟩
      rw [Service.created, List.getElem?_append_left (List.getElem?_eq_some_iff.mp ho).1]
      exact ho
  live i o ho hlive := by
    rcases List.getElem?_concat_cases ho with ⟨-, ho⟩ | ⟨rfl, rfl⟩
    · have hl := hs.live i o ho hlive
      have hne : o.offerId ≠ c.offerId := fun he => by rw [he, h] at hl; cases hl
      rw [Service.created, Phase.toSwap_offerId, AList.lookup_insert_ne hne]
      exact hl
    · rw [Service.created, Phase.toSwap_offerId]
      exact AList.lookup_insert _

theorem Registry.afterCall {s : Service} (hs : Registry C s) {i offerId now : Nat} {secret : Hash}
    {p p' : Phase C} {call : Call} {outs : List Output} {err : Option PyError}
    (ho : s.objects[i]? = some (p.toSwap offerId secret))
    (hstep : Phase.Step true offerId secret now p call p' outs err) :
    Registry C (s.afterCall i (p'.toSwap offerId secret) outs) := by
  have hi : i < s.objects.length := (List.getElem?_eq_some_iff.mp ho).1
  have hself : (s.objects.set i (p'.toSwap offerId secret))[i]? =
      some (p'.toSwap offerId secret) := List.getElem?_set_self hi
  have hphases (j : Nat) (o : SwapCommitment)
      (hj : (s.objects.set i (p'.toSwap offerId secret))[j]? = some o) :
      ∃ offerId secret, ∃ p : Phase C, o = p.toSwap offerId secret := by
    rcases List.getElem?_set_cases hj with ⟨-, rfl⟩ | ⟨-, hj⟩
    · exact ⟨_, _, _, rfl⟩
    · exact hs.phases j o hj
  rcases hstep.cleanup with ⟨hno, hprocessed⟩ | ⟨quiet, rfl, -, hlive, hprocessed⟩
  · -- the registry is as before, and the swap as live as before
    refine ⟨hphases, ?_, ?_⟩
    · intro id j hj
      simp only [Service.afterCall, hno, if_false] at hj
      obtain ⟨o, hoj, hid, hlive, hinit⟩ := hs.registered id j hj
      by_cases hji : j = i
      · subst hji
        obtain rfl : p.toSwap offerId secret = o := Option.some.inj (ho.symm.trans hoj)
        rw [Phase.toSwap_offerId] at hid
        exact ⟨_, hself, by rw [Phase.toSwap_offerId, hid], fun h => hlive (hprocessed.mp h),
          hstep.not_initializing hinit⟩
      · refine ⟨o, ?_, hid, hlive, hinit⟩
        simp only [Service.afterCall]
        rw [List.getElem?_set_ne (Ne.symm hji)]
        exact hoj
    · intro j o hj hlive
      simp only [Service.afterCall, hno, if_false]
      rcases List.getElem?_set_cases hj with ⟨rfl, rfl⟩ | ⟨-, hj⟩
      · have hl := hs.live j _ ho fun h => hlive (hprocessed.mpr h)
        rwa [Phase.toSwap_offerId] at hl ⊢
      · exact hs.live j o hj hlive
  · -- the swap is processed, and its id is taken out of the registry
    have hreg := hs.live i _ ho hlive
    rw [Phase.toSwap_offerId] at hreg
    refine ⟨hphases, ?_, ?_⟩
    · intro id j hj
      simp only [Service.afterCall, List.mem_append, List.mem_singleton, or_true, if_true,
        Phase.toSwap_offerId] at hj
      have hne : id ≠ offerId := by
        rintro rfl
        rw [AList.lookup_erase] at hj; cases hj
      rw [AList.lookup_erase_ne hne] at hj
      obtain ⟨o, hoj, hid, hrest⟩ := hs.registered id j hj
      have hji : j ≠ i := by
        rintro rfl
        obtain rfl : p.toSwap offerId secret = o := Option.some.inj (ho.symm.trans hoj)
        rw [Phase.toSwap_offerId] at hid
        exact hne hid.symm
      refine ⟨o, ?_, hid, hrest⟩
      simp only [Service.afterCall]
      rw [List.getElem?_set_ne (Ne.symm hji)]
      exact hoj
    · intro j o hj hjlive
      rcases List.getElem?_set_cases hj with ⟨rfl, rfl⟩ | ⟨hji, hj⟩
      · exact absurd hprocessed hjlive
      · have hl := hs.live j o hj hjlive
        have hne : o.offerId ≠ offerId := by
          intro he
          rw [he, hreg] at hl
          exact hji (Option.some.inj hl).symm
        simp only [Service.afterCall, List.mem_append, List.mem_singleton, or_true, if_true,
          Phase.toSwap_offerId]
        rw [AList.lookup_erase_ne hne]
        exact hl

theorem Service.taken_objects (s : Service) (e : ServiceEvent) :
    (s.taken e).objects = s.objects := by
  cases e <;> rfl

theorem Service.taken_swaps (s : Service) (e : ServiceEvent) : (s.taken e).swaps = s.swaps := by
  cases e <;> rfl

theorem Registry.served {s s' : Service} (hs : Registry C s) {input : ServiceInput}
    {err : Option PyError} (h : Served C s input s' err) : Registry C s' := by
  have htaken : Registry C (s.taken input.event) :=
    hs.congr (s.taken_objects _) (s.taken_swaps _)
  cases h with
  | called _ ho hstep =>
    exact htaken.afterCall ((s.taken_objects _ ▸ ho :)) hstep
  | created hl _ => exact hs.created hl
  | ignored _ _ => exact htaken

theorem registry_step {s : Service} (hs : Registry C s) (input : ServiceInput) :
    Registry C (serviceStep C s input) := by
  obtain ⟨s', err, hserved, hrun⟩ := CommitmentService.served hs input
  rw [serviceStep, hrun, EStateM.Result.state_of]
  exact hs.served hserved

/-- The registry is sound in every reachable state. -/
theorem registry_run (is : List ServiceInput) : Registry C (serviceRun C is) :=
  LTS.run_invariant (serviceStep C) (fun _ s => Registry C s) .init
    (fun _ _ input hs => registry_step hs input) is

end CommitmentService
end Raidex
