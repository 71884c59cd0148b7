import Raidex.CommitmentService.Refinement

/-!
# Raidex.CommitmentService.Roles

Who is who in a swap, in every reachable state: which fields are set, whose they are, and that
they stay.

* `RoleConsistent`: the fields each state implies.
* `Kept`: a field that is set stays as it is.
* `role_consistency`: both, for every run of a swap.
-/

namespace Raidex
namespace CommitmentService

/-- The commitments handed in while the swap waits for a taker, in order. -/
def waitingCommitments (C : Crypto) (autoSpawnTimeout : Bool) (offerId : Nat) (secret : Hash)
    (is : List (Nat × Call)) : List Commitment :=
  (LTS.trace (swapStep C autoSpawnTimeout) (swapInit C offerId secret) is).filterMap fun x =>
    match x.2.2 with
    | .takerCommitment c => if x.1.swap.state = .waitForTaker then some c else none
    | _ => none

section

variable (C : Crypto)

def firstFrom (a : Address) (cs : List Commitment) : Option Commitment :=
  cs.find? fun c => sender C c = .ok a

def MakerDeposited (s : SwapCommitment) : Prop :=
  ∃ c r, s.makerCommitmentMsg = some c ∧ s.makerTransferReceipt = some r ∧
    sender C c = .ok r.initiator

def TakerDeposited (waiting : List Commitment) (s : SwapCommitment) : Prop :=
  ∃ c r, s.takerCommitmentMsg = some c ∧ s.takerTransferReceipt = some r ∧
    sender C c = .ok r.initiator ∧ firstFrom C r.initiator waiting = some c

/-- `e` and the commitment have the same sender. -/
def SentBy (e : SwapExecution) (commitment : Option Commitment) : Prop :=
  ∃ c a, commitment = some c ∧ sender C c = .ok a ∧ sender C e = .ok a

def NoTaker (s : SwapCommitment) : Prop :=
  s.takerCommitmentMsg = none ∧ s.takerTransferReceipt = none

def NoExecution (s : SwapCommitment) : Prop :=
  s.makerSwapExecutionMsg = none ∧ s.takerSwapExecutionMsg = none

/-- What the terminated state `t` says about the fields. -/
def TerminatedFields (waiting : List Commitment) (s : SwapCommitment) : SwapState → Prop
  | .uncommitted => s.makerTransferReceipt = none ∧ NoTaker s ∧ NoExecution s
  | .untraded => MakerDeposited C s ∧ NoTaker s ∧ NoExecution s
  | .failed => MakerDeposited C s ∧ TakerDeposited C waiting s ∧
      (s.makerSwapExecutionMsg = none ∨ s.takerSwapExecutionMsg = none)
  | .traded => MakerDeposited C s ∧ TakerDeposited C waiting s ∧
      s.makerSwapExecutionMsg.isSome ∧ s.takerSwapExecutionMsg.isSome
  | _ => False

/-- The fields that the state of a swap implies, when `waiting` are the commitments it was handed
while it waited for a taker. -/
structure RoleConsistent (waiting : List Commitment) (s : SwapCommitment) : Prop where
  maker : s.state ∈ [SwapState.waitForTaker, .waitForExecution, .waitForMakerExecution,
    .waitForTakerExecution] → MakerDeposited C s
  noTaker : s.state = .waitForTaker → NoTaker s
  taker : s.state ∈ [SwapState.waitForExecution, .waitForMakerExecution,
    .waitForTakerExecution] → TakerDeposited C waiting s
  makerExecution : ∀ e, s.makerSwapExecutionMsg = some e → SentBy C e s.makerCommitmentMsg
  takerExecution : ∀ e, s.takerSwapExecutionMsg = some e → SentBy C e s.takerCommitmentMsg
  terminated_iff : s.terminatedState.isSome ↔ s.state = .processed
  terminated : ∀ t, s.terminatedState = some t → TerminatedFields C waiting s t

end

/-- The state from which a trigger finalizes a swap. -/
def finalizedFrom : SwapState → SwapTrigger → Option SwapState
  | .initializing, .timeout | .waitForMaker, .timeout => some .uncommitted
  | .waitForTaker, .timeout => some .untraded
  | .waitForExecution, .timeout | .waitForTakerExecution, .timeout
  | .waitForMakerExecution, .timeout => some .failed
  | .waitForTakerExecution, .swapExecutionMsg
  | .waitForMakerExecution, .swapExecutionMsg => some .traded
  | _, _ => none

/-- A field that is set keeps its value. -/
def Stays {α : Type} (o o' : Option α) : Prop := ∀ a, o = some a → o' = some a

structure Kept (s s' : SwapCommitment) : Prop where
  makerCommitmentMsg : Stays s.makerCommitmentMsg s'.makerCommitmentMsg
  takerCommitmentMsg : Stays s.takerCommitmentMsg s'.takerCommitmentMsg
  makerTransferReceipt : Stays s.makerTransferReceipt s'.makerTransferReceipt
  takerTransferReceipt : Stays s.takerTransferReceipt s'.takerTransferReceipt
  makerSwapExecutionMsg : Stays s.makerSwapExecutionMsg s'.makerSwapExecutionMsg
  takerSwapExecutionMsg : Stays s.takerSwapExecutionMsg s'.takerSwapExecutionMsg
  terminatedState : Stays s.terminatedState s'.terminatedState

theorem Stays.refl {α : Type} (o : Option α) : Stays o o := fun _ h => h

theorem Stays.trans {α : Type} {o₁ o₂ o₃ : Option α} (h₁ : Stays o₁ o₂) (h₂ : Stays o₂ o₃) :
    Stays o₁ o₃ := fun a h => h₂ a (h₁ a h)

@[simp] theorem stays_none {α : Type} (o : Option α) : Stays none o := fun _ h => by cases h

theorem Kept.refl (s : SwapCommitment) : Kept s s :=
  ⟨.refl _, .refl _, .refl _, .refl _, .refl _, .refl _, .refl _⟩

theorem Kept.trans {s₁ s₂ s₃ : SwapCommitment} (h₁ : Kept s₁ s₂) (h₂ : Kept s₂ s₃) : Kept s₁ s₃ :=
  ⟨h₁.1.trans h₂.1, h₁.2.trans h₂.2, h₁.3.trans h₂.3, h₁.4.trans h₂.4, h₁.5.trans h₂.5,
    h₁.6.trans h₂.6, h₁.7.trans h₂.7⟩

variable {C : Crypto} {autoSpawnTimeout : Bool} {offerId : Nat} {secret : Hash}

theorem Phase.Step.kept {now : Nat} {p p' : Phase C} {call : Call} {outs : List Output}
    {err : Option PyError}
    (h : Phase.Step autoSpawnTimeout offerId secret now p call p' outs err) :
    Kept (p.toSwap offerId secret) (p'.toSwap offerId secret) := by
  cases h with
  | undeclared _ | makerBounced _ _ | makerUnrecoverable _ | takerRepeated _ _
  | takerUnrecoverable _ | takerBounced _ | executionIgnored _ _ | executionUnrecoverable _
  | executionBounced => exact .refl _
  | _ =>
    constructor <;> first | exact .refl _ | exact stays_none _

theorem Phase.Step.finalizedFrom {now : Nat} {p p' : Phase C} {call : Call} {outs : List Output}
    {err : Option PyError}
    (h : Phase.Step autoSpawnTimeout offerId secret now p call p' outs err)
    (hlive : (p.toSwap offerId secret).state ≠ .processed)
    (hdone : (p'.toSwap offerId secret).state = .processed) :
    (p'.toSwap offerId secret).terminatedState =
      CommitmentService.finalizedFrom (p.toSwap offerId secret).state call.trigger := by
  cases h with
  | undeclared _ | makerBounced _ _ | makerUnrecoverable _ | takerRepeated _ _
  | takerUnrecoverable _ | takerBounced _ | executionIgnored _ _ | executionUnrecoverable _
  | executionBounced => exact absurd hdone hlive
  | failed htr =>
    rename_i x
    rw [htr]; cases x <;> rfl
  | abandoned htr | uncommitted htr | untraded htr => rw [htr]; rfl
  | takerCompleted | makerCompleted => rfl
  | _ => cases hdone

/-! ## The pool -/

/-- The pool of the swap holds the first commitment of every sender. -/
def PoolFirst (C : Crypto) (waiting : List Commitment) (s : SwapCommitment) : Prop :=
  ∀ a, s.takerCommitmentPool.lookup a = firstFrom C a waiting

/-- A later commitment is the first of its sender only if there is none before it. -/
theorem firstFrom_concat {a : Address} {cs : List Commitment} {c : Commitment}
    (h : sender C c = .ok a → (firstFrom C a cs).isSome) :
    firstFrom C a (cs ++ [c]) = firstFrom C a cs := by
  rw [firstFrom, List.find?_append, ← firstFrom]
  cases hf : firstFrom C a cs with
  | some d => rfl
  | none =>
    have hc : sender C c ≠ .ok a := fun hc => by simpa [hf] using h hc
    simp [hc]

theorem PoolFirst.insert {waiting : List Commitment} {s s' : SwapCommitment} {a : Address}
    {c : Commitment} (hpool : PoolFirst C waiting s) (hc : sender C c = .ok a)
    (ha : a ∉ s.takerCommitmentPool)
    (hs' : s'.takerCommitmentPool = s.takerCommitmentPool.insert a c) :
    PoolFirst C (waiting ++ [c]) s' := by
  intro b
  rw [hs']
  by_cases hb : b = a
  · subst hb
    have hnone : firstFrom C b waiting = none := by
      rw [← hpool]; exact AList.lookup_eq_none.mpr ha
    rw [AList.lookup_insert, firstFrom, List.find?_append, ← firstFrom, hnone]
    simp [hc]
  · have hne : sender C c ≠ .ok b := by
      rw [hc]; intro he; exact hb (Except.ok.inj he).symm
    rw [AList.lookup_insert_ne hb, firstFrom_concat fun h => absurd h hne, hpool]

theorem PoolFirst.repeated {waiting : List Commitment} {s s' : SwapCommitment} {c : Commitment}
    (hpool : PoolFirst C waiting s)
    (hc : ∀ a, sender C c = .ok a → a ∈ s.takerCommitmentPool)
    (hs' : s'.takerCommitmentPool = s.takerCommitmentPool) :
    PoolFirst C (waiting ++ [c]) s' := by
  intro b
  rw [hs', firstFrom_concat fun h => ?_, hpool]
  rw [← hpool]
  exact AList.lookup_isSome.mpr (hc b h)

/-- Only a commitment of a new sender, handed in while waiting for a taker, changes the pool. -/
theorem Phase.Step.pool {now : Nat} {p p' : Phase C} {call : Call} {outs : List Output}
    {err : Option PyError}
    (h : Phase.Step autoSpawnTimeout offerId secret now p call p' outs err) :
    (∃ c a, call = .takerCommitment c ∧ (p.toSwap offerId secret).state = .waitForTaker ∧
      sender C c = .ok a ∧ a ∉ (p.toSwap offerId secret).takerCommitmentPool ∧
      (p'.toSwap offerId secret).takerCommitmentPool =
        (p.toSwap offerId secret).takerCommitmentPool.insert a c) ∨
    ((p'.toSwap offerId secret).takerCommitmentPool =
        (p.toSwap offerId secret).takerCommitmentPool ∧
      ∀ c, call = .takerCommitment c → (p.toSwap offerId secret).state = .waitForTaker →
        ∀ a, sender C c = .ok a → a ∈ (p.toSwap offerId secret).takerCommitmentPool) := by
  cases h with
  | takerQueued hc ha => exact .inl ⟨_, _, rfl, rfl, hc, ha, rfl⟩
  | takerRepeated hc ha =>
    refine .inr ⟨rfl, ?_⟩
    rintro c ⟨⟩ - b hb
    rw [hc] at hb
    cases hb; exact ha
  | takerUnrecoverable hc =>
    refine .inr ⟨rfl, ?_⟩
    rintro c ⟨⟩ - b hb
    rw [hc] at hb; cases hb
  | undeclared hacc =>
    refine .inr ⟨rfl, ?_⟩
    rintro c rfl hstate
    cases p with
    | waitForTaker m pool => cases hacc
    | executing e x => cases x <;> cases hstate
    | _ => cases hstate
  | abandoned htr | uncommitted htr | untraded htr | failed htr =>
    refine .inr ⟨rfl, ?_⟩
    rintro c rfl
    cases htr
  | _ => exact .inr ⟨rfl, by rintro c ⟨⟩⟩

/-- What the last call of a run adds to the commitments handed in while waiting. -/
theorem waitingCommitments_concat (h : List (Nat × Call)) (now : Nat) (call : Call) :
    waitingCommitments C autoSpawnTimeout offerId secret (h ++ [(now, call)]) =
      waitingCommitments C autoSpawnTimeout offerId secret h ++
        match call with
        | .takerCommitment c =>
          if (swapRun C autoSpawnTimeout offerId secret h).swap.state = .waitForTaker then [c]
          else []
        | _ => [] := by
  rw [waitingCommitments, LTS.trace_concat, List.filterMap_append, ← waitingCommitments]
  congr 1
  cases call with
  | takerCommitment c =>
    simp only [List.filterMap_cons, List.filterMap_nil]
    split <;> simp_all [swapRun]
  | _ => rfl

theorem poolFirst_run (C : Crypto) (autoSpawnTimeout : Bool) (offerId : Nat) (secret : Hash)
    (is : List (Nat × Call)) :
    ∃ p : Phase C, (swapRun C autoSpawnTimeout offerId secret is).swap = p.toSwap offerId secret ∧
      PoolFirst C (waitingCommitments C autoSpawnTimeout offerId secret is)
        (p.toSwap offerId secret) := by
  refine swapRun_induction C autoSpawnTimeout offerId secret (fun h p _ =>
    PoolFirst C (waitingCommitments C autoSpawnTimeout offerId secret h) (p.toSwap offerId secret))
    (fun _ => rfl) ?_ is
  intro h p out now call p' outs err hpool hx hstep
  have hstate : (swapRun C autoSpawnTimeout offerId secret h).swap.state =
      (p.toSwap offerId secret).state := by rw [hx]
  rw [waitingCommitments_concat, hstate]
  rcases hstep.pool with ⟨c, a, rfl, hs, hc, ha, heq⟩ | ⟨heq, hrep⟩
  · simp only [hs, if_true]
    exact hpool.insert hc ha heq
  · cases call with
    | takerCommitment c =>
      by_cases hs : (p.toSwap offerId secret).state = .waitForTaker
      · simp only [hs, if_true]
        exact hpool.repeated (hrep c rfl hs) heq
      · simp only [hs, if_false, List.append_nil]
        intro a; rw [heq]; exact hpool a
    | _ =>
      simp only [List.append_nil]
      intro a; rw [heq]; exact hpool a

/-! ## The fields of a phase -/

theorem Party.sentBy {party : Party C} (x : Execution party) :
    SentBy C x.msg (some party.commitment) :=
  ⟨party.commitment, party.address, rfl, party.committed, x.executed⟩

theorem Executed.makerMsg_sentBy {e : Engagement C} (x : Executed e) (m : SwapExecution)
    (h : x.makerMsg = some m) : SentBy C m (some e.maker.commitment) := by
  cases x with
  | byMaker x => cases h; exact Party.sentBy x
  | _ => cases h

theorem Executed.takerMsg_sentBy {e : Engagement C} (x : Executed e) (m : SwapExecution)
    (h : x.takerMsg = some m) : SentBy C m (some e.taker.commitment) := by
  cases x with
  | byTaker y => cases h; exact Party.sentBy y
  | _ => cases h

theorem Executed.not_both {e : Engagement C} (x : Executed e) :
    x.makerMsg = none ∨ x.takerMsg = none := by
  cases x <;> simp [makerMsg, takerMsg]

theorem Engagement.first {e : Engagement C} {waiting : List Commitment} {s : SwapCommitment}
    (hpool : PoolFirst C waiting s) (hs : s.takerCommitmentPool = e.pool.commitments) :
    firstFrom C e.taker.receipt.initiator waiting = some e.taker.commitment := by
  rw [← hpool, hs]; exact e.selected

theorem Phase.roleConsistent {p : Phase C} {waiting : List Commitment}
    (hpool : PoolFirst C waiting (p.toSwap offerId secret)) :
    RoleConsistent C waiting (p.toSwap offerId secret) := by
  have hmaker (m : Party C) : sender C m.commitment = .ok m.receipt.initiator := m.committed
  cases p with
  | initializing | waitForMaker c =>
    constructor <;> simp [toSwap, SwapCommitment.new]
  | uncommitted c =>
    constructor <;> simp [toSwap, SwapCommitment.new, SwapCommitment.process, TerminatedFields,
      NoTaker, NoExecution]
  | waitForTaker m pool | untraded m pool =>
    constructor <;> simp [toSwap, withMaker, SwapCommitment.new, SwapCommitment.process,
      TerminatedFields, NoTaker, NoExecution, MakerDeposited, hmaker]
  | executing e x =>
    have hfirst := e.first hpool rfl
    constructor
    · intro _; exact ⟨_, _, rfl, rfl, hmaker _⟩
    · intro h; cases x <;> cases h
    · intro _; exact ⟨_, _, rfl, rfl, hmaker _, hfirst⟩
    · exact x.makerMsg_sentBy
    · exact x.takerMsg_sentBy
    · cases x <;> simp [toSwap, withExecuted, withTaker, withMaker, SwapCommitment.new,
        Executed.state]
    · intro t h; cases h
  | failed e x =>
    have hfirst := e.first hpool rfl
    constructor
    · intro h; simp [toSwap, SwapCommitment.process] at h
    · intro h; cases h
    · intro h; simp [toSwap, SwapCommitment.process] at h
    · exact x.makerMsg_sentBy
    · exact x.takerMsg_sentBy
    · exact ⟨fun _ => rfl, fun _ => rfl⟩
    · rintro t ⟨⟩
      exact ⟨⟨_, _, rfl, rfl, hmaker _⟩, ⟨_, _, rfl, rfl, hmaker _, hfirst⟩, x.not_both⟩
  | traded e x y completed =>
    have hfirst := e.first hpool rfl
    constructor
    · intro h; simp [toSwap, SwapCommitment.process] at h
    · intro h; cases h
    · intro h; simp [toSwap, SwapCommitment.process] at h
    · rintro m ⟨⟩; exact Party.sentBy x
    · rintro m ⟨⟩; exact Party.sentBy y
    · exact ⟨fun _ => rfl, fun _ => rfl⟩
    · rintro t ⟨⟩
      exact ⟨⟨_, _, rfl, rfl, hmaker _⟩, ⟨_, _, rfl, rfl, hmaker _, hfirst⟩, rfl, rfl⟩

/-- In every reachable state of a swap the fields are those its state implies, the terminated
state is the one it was finalized from, and a field that was set earlier has kept its value. -/
theorem role_consistency (C : Crypto) (autoSpawnTimeout : Bool) (offerId : Nat) (secret : Hash)
    (is : List (Nat × Call)) :
    RoleConsistent C (waitingCommitments C autoSpawnTimeout offerId secret is)
      (swapRun C autoSpawnTimeout offerId secret is).swap ∧
    (∀ pre i, pre ++ [i] <+: is →
      (swapRun C autoSpawnTimeout offerId secret pre).swap.state ≠ .processed →
      (swapRun C autoSpawnTimeout offerId secret (pre ++ [i])).swap.state = .processed →
      (swapRun C autoSpawnTimeout offerId secret (pre ++ [i])).swap.terminatedState =
        finalizedFrom (swapRun C autoSpawnTimeout offerId secret pre).swap.state i.2.trigger) ∧
    ∀ pre, pre <+: is →
      Kept (swapRun C autoSpawnTimeout offerId secret pre).swap
        (swapRun C autoSpawnTimeout offerId secret is).swap := by
  refine ⟨?_, ?_, ?_⟩
  · obtain ⟨p, hp, hpool⟩ := poolFirst_run C autoSpawnTimeout offerId secret is
    rw [hp]
    exact p.roleConsistent hpool
  · intro pre i _
    obtain ⟨p, p', outs, err, hstep, hp, hp'⟩ :=
      swapRun_step C autoSpawnTimeout offerId secret pre i
    rw [hp, hp']
    exact hstep.finalizedFrom
  · intro pre hpre
    refine LTS.run_mono (R := fun x y : SwapRun => Kept x.swap y.swap) (fun _ => .refl _)
      (fun _ _ _ => .trans) ?_ hpre
    intro h i
    obtain ⟨p, p', outs, err, hstep, hp, hp'⟩ :=
      swapRun_step C autoSpawnTimeout offerId secret h i
    rw [swapRun_concat] at hp'
    rw [swapRun] at hp hp'
    rw [hp, hp']
    exact hstep.kept

end CommitmentService
end Raidex
