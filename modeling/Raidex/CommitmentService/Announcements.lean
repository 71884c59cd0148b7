import Raidex.CommitmentService.Roles

/-!
# Raidex.CommitmentService.Announcements

The messages a swap queues.

* `Phase.sent`: the messages of a phase; the phase determines them and their order.
* `Announced`: one proof for each accepted deposit, one secret, no contradiction.
* `announcements`: every run of a swap is `Announced`.
-/

namespace Raidex
namespace CommitmentService

abbrev Envelope := Message × Option Address

def Output.envelope : Output → Option Envelope
  | .send msg topic => some (msg, topic)
  | _ => none

/-- The messages queued so far, with their topics. -/
def sent (out : List Output) : List Envelope := out.filterMap Output.envelope

def asProof : Envelope → Option (CommitmentProof × Option Address)
  | (.commitmentProof q, topic) => some (q, topic)
  | _ => none

def isOfferTaken : Envelope → Bool
  | (.offerTaken _, _) => true
  | _ => false

def isCancellationProof : Envelope → Bool
  | (.cancellationProof _, _) => true
  | _ => false

def isSwapCompleted : Envelope → Bool
  | (.swapCompleted _, _) => true
  | _ => false

/-- The proof owed for an accepted deposit: of the commitment, to the initiator of the deposit. -/
def SwapCommitment.proofFor (s : SwapCommitment) :
    Option Commitment → Option TransferReceipt → Option (CommitmentProof × Option Address)
  | some c, some r => some (s.commitmentProof c, some r.initiator)
  | _, _ => none

/-- What `log`, the messages queued in a run with the calls `is`, says about the swap `s`. -/
structure Announced (C : Crypto) (secret : Hash) (is : List (Nat × Call)) (s : SwapCommitment)
    (log : List Envelope) : Prop where
  proofs : log.filterMap asProof =
    (s.proofFor s.makerCommitmentMsg s.makerTransferReceipt).toList ++
      (s.proofFor s.takerCommitmentMsg s.takerTransferReceipt).toList
  secrets : ∀ q topic, (.commitmentProof q, topic) ∈ log →
    q.secret = secret ∧ q.secretHash = C.keccak (bigEndian 32 secret.toNat)
  offerTakenOnce : log.countP isOfferTaken ≤ 1
  offerTakenBroadcast : ∀ m topic, (.offerTaken m, topic) ∈ log → topic = none
  /-- The second proof is the taker's. -/
  takerProofAfter : ∀ pre q topic post, log = pre ++ (.commitmentProof q, topic) :: post →
    (pre.filterMap asProof).length = 1 → ∃ m, (.offerTaken m, none) ∈ pre
  cancellationOnce : log.countP isCancellationProof ≤ 1
  cancellationAfter : ∀ pre m topic post, log = pre ++ (.cancellationProof m, topic) :: post →
    topic = s.makerTransferReceipt.map TransferReceipt.initiator ∧
      (.commitmentProof m.cancellationProof, topic) ∈ pre
  exclusive : ∀ m topic m' topic', (.cancellationProof m, topic) ∈ log →
    (.offerTaken m', topic') ∉ log
  completedOnce : log.countP isSwapCompleted ≤ 1
  completedAfter : ∀ m topic, (.swapCompleted m, topic) ∈ log →
    ∃ t₁ t₂ e₁ e₂, (t₁, .swapExecution e₁) ∈ is ∧ SentBy C e₁ s.makerCommitmentMsg ∧
      (t₂, .swapExecution e₂) ∈ is ∧ SentBy C e₂ s.takerCommitmentMsg

variable {C : Crypto} {autoSpawnTimeout : Bool} {offerId : Nat} {secret : Hash}

section

variable (offerId : Nat) (secret : Hash)

def proofEnvelope (p : Party C) : Envelope :=
  (.commitmentProof (proof offerId secret p), some p.address)

def takenEnvelope : Envelope := (.offerTaken { offerId := offerId, signature := none }, none)

/-- The messages queued on the way to a phase. -/
def Phase.sent : Phase C → List Envelope
  | .initializing | .waitForMaker _ | .uncommitted _ => []
  | .waitForTaker m _ => [proofEnvelope offerId secret m]
  | .executing e _ | .failed e _ =>
    [proofEnvelope offerId secret e.maker, takenEnvelope offerId,
      proofEnvelope offerId secret e.taker]
  | .untraded m _ =>
    [proofEnvelope offerId secret m,
      (.cancellationProof { offerId := offerId, cancellationProof := proof offerId secret m,
                            signature := none }, some m.address)]
  | .traded e _ _ completed =>
    [proofEnvelope offerId secret e.maker, takenEnvelope offerId,
      proofEnvelope offerId secret e.taker,
      (.swapCompleted { offerId := offerId, timestamp := completed, signature := none }, none)]

end

@[simp] theorem sent_append (out outs : List Output) : sent (out ++ outs) = sent out ++ sent outs :=
  List.filterMap_append

theorem Phase.Step.sent {now : Nat} {p p' : Phase C} {call : Call} {outs : List Output}
    {err : Option PyError}
    (h : Phase.Step autoSpawnTimeout offerId secret now p call p' outs err) :
    p'.sent offerId secret = p.sent offerId secret ++ CommitmentService.sent outs := by
  cases h with
  | undeclared _ | makerCommittedTooLate _ _ | makerUnrecoverable _ | takerQueued _ _
  | takerRepeated _ _ | takerUnrecoverable _ | makerExecuted | takerExecuted _
  | executionIgnored _ _ | executionUnrecoverable _ => exact (List.append_nil _).symm
  | makerCommitted _ => cases autoSpawnTimeout <;> rfl
  | _ => rfl

/-- The executions a phase holds were handed in. -/
def Handed (is : List (Nat × Call)) (s : SwapCommitment) : Prop :=
  (∀ e, s.makerSwapExecutionMsg = some e → ∃ t, (t, .swapExecution e) ∈ is) ∧
    ∀ e, s.takerSwapExecutionMsg = some e → ∃ t, (t, .swapExecution e) ∈ is

theorem Handed.step {now : Nat} {is : List (Nat × Call)} {call : Call} {s s' : SwapCommitment}
    (h : Handed is s)
    (hm : s'.makerSwapExecutionMsg = s.makerSwapExecutionMsg ∨
      ∃ e, call = .swapExecution e ∧ s'.makerSwapExecutionMsg = some e)
    (ht : s'.takerSwapExecutionMsg = s.takerSwapExecutionMsg ∨
      ∃ e, call = .swapExecution e ∧ s'.takerSwapExecutionMsg = some e) :
    Handed (is ++ [(now, call)]) s' := by
  have hlift {o o' : Option SwapExecution} (ho : ∀ e, o = some e → ∃ t, (t, .swapExecution e) ∈ is)
      (h' : o' = o ∨ ∃ e, call = .swapExecution e ∧ o' = some e) (e : SwapExecution)
      (he : o' = some e) : ∃ t, (t, Call.swapExecution e) ∈ is ++ [(now, call)] := by
    rcases h' with rfl | ⟨e', rfl, rfl⟩
    · obtain ⟨t, ht⟩ := ho e he
      exact ⟨t, List.mem_append_left _ ht⟩
    · cases he
      exact ⟨now, List.mem_append_right _ (List.mem_singleton_self _)⟩
  exact ⟨hlift h.1 hm, hlift h.2 ht⟩

theorem Phase.Step.handed {now : Nat} {p p' : Phase C} {call : Call} {outs : List Output}
    {err : Option PyError} {is : List (Nat × Call)} (hp : Handed is (p.toSwap offerId secret))
    (h : Phase.Step autoSpawnTimeout offerId secret now p call p' outs err) :
    Handed (is ++ [(now, call)]) (p'.toSwap offerId secret) := by
  cases h with
  | makerExecuted | makerCompleted => exact hp.step (.inr ⟨_, rfl, rfl⟩) (.inl rfl)
  | takerExecuted _ | takerCompleted => exact hp.step (.inl rfl) (.inr ⟨_, rfl, rfl⟩)
  | _ => exact hp.step (.inl rfl) (.inl rfl)

/-! ## The order of the messages -/

theorem takerProofAfter_engaged {m : Party C} {rest pre post : List Envelope} {q : CommitmentProof}
    {topic : Option Address}
    (h : proofEnvelope offerId secret m :: takenEnvelope offerId :: rest =
      pre ++ (.commitmentProof q, topic) :: post)
    (hlen : (pre.filterMap asProof).length = 1) : ∃ m, (.offerTaken m, none) ∈ pre := by
  rcases pre with _ | ⟨x, _ | ⟨y, pre⟩⟩
  · cases hlen
  · simp [takenEnvelope] at h
  · simp only [List.cons_append, List.cons.injEq] at h
    obtain ⟨-, rfl, -⟩ := h
    exact ⟨{ offerId := offerId, signature := none }, by simp [takenEnvelope]⟩

theorem takerProofAfter_waiting {m : Party C} {rest pre post : List Envelope} {q : CommitmentProof}
    {topic : Option Address} (hrest : rest.filterMap asProof = [])
    (h : proofEnvelope offerId secret m :: rest = pre ++ (.commitmentProof q, topic) :: post)
    (hlen : (pre.filterMap asProof).length = 1) : ∃ m, (.offerTaken m, none) ∈ pre := by
  rcases pre with _ | ⟨x, pre⟩
  · cases hlen
  · rw [(List.cons.inj h).2] at hrest
    simp [asProof] at hrest

theorem cancellationAfter_untraded {m : Party C} {q c : CancellationProof}
    {pre post : List Envelope} {topic : Option Address}
    (hq : q.cancellationProof = proof offerId secret m)
    (h : [proofEnvelope offerId secret m, (.cancellationProof q, some m.address)] =
      pre ++ (.cancellationProof c, topic) :: post) :
    topic = some m.address ∧ (.commitmentProof c.cancellationProof, topic) ∈ pre := by
  rcases pre with _ | ⟨x, _ | ⟨y, pre⟩⟩
  · simp [proofEnvelope] at h
  · simp only [List.cons_append, List.nil_append, List.cons.injEq, Prod.mk.injEq,
      Message.cancellationProof.injEq] at h
    obtain ⟨rfl, ⟨rfl, rfl⟩, -⟩ := h
    exact ⟨rfl, by rw [hq]; exact List.mem_singleton_self _⟩
  · simp at h

/-! ## Every run -/

section

attribute [local simp] Phase.sent Phase.toSwap withMaker withTaker withExecuted
  SwapCommitment.new SwapCommitment.process SwapCommitment.commitmentProof
  SwapCommitment.proofFor proof proofEnvelope takenEnvelope asProof isOfferTaken
  isCancellationProof isSwapCompleted Party.address List.filterMap_cons List.countP_cons

/-- Messages and fields of a phase agree. -/
theorem Phase.announced {p : Phase C} {is : List (Nat × Call)}
    (hp : Handed is (p.toSwap offerId secret)) :
    Announced C secret is (p.toSwap offerId secret) (p.sent offerId secret) := by
  cases p with
  | initializing | waitForMaker c | uncommitted c => constructor <;> simp
  | waitForTaker m pool =>
    constructor
    case takerProofAfter => exact fun _ _ _ _ => takerProofAfter_waiting rfl
    all_goals simp [List.cons_eq_append_iff]
  | untraded m pool =>
    constructor
    case takerProofAfter => exact fun _ _ _ _ => takerProofAfter_waiting rfl
    case cancellationAfter => exact fun _ _ _ _ => cancellationAfter_untraded rfl
    all_goals simp
  | executing e x | failed e x =>
    constructor
    case takerProofAfter => exact fun _ _ _ _ => takerProofAfter_engaged
    all_goals simp [List.cons_eq_append_iff, or_imp, forall_and]
  | traded e x y completed =>
    constructor
    case takerProofAfter => exact fun _ _ _ _ => takerProofAfter_engaged
    case completedAfter =>
      intro m topic _
      obtain ⟨t₁, h₁⟩ := hp.1 x.msg rfl
      obtain ⟨t₂, h₂⟩ := hp.2 y.msg rfl
      exact ⟨t₁, t₂, x.msg, y.msg, h₁, Party.sentBy x, h₂, Party.sentBy y⟩
    all_goals simp [List.cons_eq_append_iff, or_imp, forall_and]

end

/-- The messages of every run of a swap: one taker, one secret, no contradiction. -/
theorem announcements (C : Crypto) (autoSpawnTimeout : Bool) (offerId : Nat) (secret : Hash)
    (is : List (Nat × Call)) :
    Announced C secret is (swapRun C autoSpawnTimeout offerId secret is).swap
      (sent (swapRun C autoSpawnTimeout offerId secret is).out) := by
  obtain ⟨p, hp, hhanded, hsent⟩ := swapRun_induction C
    autoSpawnTimeout offerId secret
    (fun h p out => Handed h (p.toSwap offerId secret) ∧ sent out = p.sent offerId secret)
    ⟨⟨fun _ h => (by cases h), fun _ h => (by cases h)⟩, rfl⟩
    (fun h p out now call p' outs err hP _ hstep =>
      ⟨hstep.handed hP.1, by rw [sent_append, hP.2, hstep.sent]⟩) is
  rw [hp, hsent]
  exact p.announced hhanded

end CommitmentService
end Raidex
