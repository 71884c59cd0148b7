import Raidex.CommitmentService.Deposits

/-!
# Raidex.CommitmentService.Certificates

What the commitment proofs of the service certify.

* `Stake`: an accepted deposit with the commitment it was accepted for; each is followed by a
  proof of this commitment.
* `Certified`: every stake covers its commitment, and maker and taker are committed to the same
  offer.
* `Phase.Step.stakes_cases`: the only calls that add a stake.
* `certified_iff`: a run keeps the service certified exactly when every accepted transfer covers
  its commitment and every accepted taker commitment names the maker's offer.
-/

namespace Raidex
namespace CommitmentService

open scoped List

inductive Role where
  | maker
  | taker
  deriving DecidableEq

structure Stake where
  role : Role
  commitment : Commitment
  receipt : TransferReceipt

def stake (role : Role) : Option Commitment → Option TransferReceipt → List Stake
  | some c, some r => [{ role := role, commitment := c, receipt := r }]
  | _, _ => []

namespace SwapCommitment

/-- The deposits the swap has accepted. -/
def stakes (o : SwapCommitment) : List Stake :=
  stake .maker o.makerCommitmentMsg o.makerTransferReceipt ++
    stake .taker o.takerCommitmentMsg o.takerTransferReceipt

/-- The proofs of the commitments the swap has accepted a deposit for, with their topics. -/
def proofs (o : SwapCommitment) : List (CommitmentProof × Option Address) :=
  o.stakes.map fun x => (o.commitmentProof x.commitment, some x.receipt.initiator)

/-- The deposits cover their commitments, and the taker is committed to the maker's offer. -/
structure Certified (C : Crypto) (o : SwapCommitment) : Prop where
  deposited : ∀ x ∈ o.stakes, sender C x.commitment = .ok x.receipt.initiator ∧
    x.receipt.identifier = x.commitment.offerId ∧ x.commitment.amount ≤ x.receipt.amount
  matching : ∀ x ∈ o.stakes, x.role = .taker →
    ∃ c, o.makerCommitmentMsg = some c ∧ x.commitment.offerHash = c.offerHash

end SwapCommitment

section

variable (C : Crypto)

/-- The commitment proofs queued so far are those of accepted deposits, and every deposit is
certified. -/
structure Certified (s : Service) : Prop where
  queued : s.messageQueue.filterMap asProof ~ s.objects.flatMap SwapCommitment.proofs
  swaps : ∀ o ∈ s.objects, o.Certified C

/-- If the transfer is the maker's or a taker's deposit, it covers the commitment; if it is a
taker's, this commitment is to the offer of the maker. -/
def Covers (s : Service) (r : TransferReceipt) : Prop :=
  ∀ o ∈ s.swap? r.identifier,
    (o.state = .waitForMaker → ∀ c ∈ o.makerCommitmentMsg,
      sender C c = .ok r.initiator → c.amount ≤ r.amount) ∧
    (o.state = .waitForTaker → ∀ c ∈ o.takerCommitmentPool.lookup r.initiator,
      c.amount ≤ r.amount ∧ ∀ d ∈ o.makerCommitmentMsg, c.offerHash = d.offerHash)

end

variable {C : Crypto} {autoSpawnTimeout : Bool} {offerId now : Nat} {secret : Hash}

/-! ## One swap -/

/-- The stake a party has in a swap. -/
def Party.stake (role : Role) (p : Party C) : Stake where
  role := role
  commitment := p.commitment
  receipt := p.receipt

def Phase.parties : Phase C → List Stake
  | .initializing | .waitForMaker _ | .uncommitted _ => []
  | .waitForTaker m _ | .untraded m _ => [m.stake .maker]
  | .executing e _ | .failed e _ => [e.maker.stake .maker, e.taker.stake .taker]
  | .traded e _ _ _ => [e.maker.stake .maker, e.taker.stake .taker]

theorem Phase.toSwap_stakes (p : Phase C) (offerId : Nat) (secret : Hash) :
    (p.toSwap offerId secret).stakes = p.parties := by
  cases p with
  | uncommitted c => cases c <;> rfl
  | _ => rfl

/-- The queued proofs of a phase are those of its stakes. -/
theorem Phase.toSwap_proofs (p : Phase C) :
    (p.toSwap offerId secret).proofs = (p.sent offerId secret).filterMap asProof := by
  cases p with
  | uncommitted c => cases c <;> rfl
  | _ => rfl

/-- Only the deposit of the maker or of the taker that is engaged adds a stake. -/
theorem Phase.Step.stakes_cases {p p' : Phase C} {call : Call} {outs : List Output}
    {err : Option PyError}
    (h : Phase.Step autoSpawnTimeout offerId secret now p call p' outs err) :
    p'.parties = p.parties ∨
    (∃ m, p = .waitForMaker m.commitment ∧ call = .transferReceipt m.receipt ∧
      p' = .waitForTaker m .empty) ∨
    (∃ e, p = .waitForTaker e.maker e.pool ∧ call = .transferReceipt e.taker.receipt ∧
      p' = .executing e .neither) := by
  cases h with
  | makerDeposited => exact .inr (.inl ⟨_, rfl, rfl, rfl⟩)
  | takerDeposited => exact .inr (.inr ⟨_, rfl, rfl, rfl⟩)
  | _ => exact .inl rfl

/-- A transfer from the sender of the maker's commitment is the maker's deposit. -/
theorem Phase.Step.makerStake {p p' : Phase C} {r : TransferReceipt} {c : Commitment}
    {outs : List Output} {err : Option PyError}
    (h : Phase.Step autoSpawnTimeout offerId secret now p (.transferReceipt r) p' outs err)
    (hstate : (p.toSwap offerId secret).state = .waitForMaker)
    (hc : (p.toSwap offerId secret).makerCommitmentMsg = some c)
    (hsender : sender C c = .ok r.initiator) :
    p'.parties = [{ role := .maker, commitment := c, receipt := r }] := by
  cases h with
  | undeclared hacc =>
    cases p with
    | waitForMaker c => cases hacc
    | executing e x => cases x <;> cases hstate
    | _ => cases hstate
  | makerDeposited => cases hc; rfl
  | makerBounced hs hne => cases hc; rw [hsender] at hs; cases hs; exact absurd rfl hne
  | makerUnrecoverable hs => cases hc; rw [hsender] at hs; cases hs
  | abandoned htr | uncommitted htr | untraded htr | failed htr => cases htr
  | executionBounced => rename_i e x; cases x <;> cases hstate
  | _ => cases hstate

/-- A transfer from the sender of a pooled commitment is the taker's deposit. -/
theorem Phase.Step.takerStake {p p' : Phase C} {r : TransferReceipt} {c : Commitment}
    {outs : List Output} {err : Option PyError}
    (h : Phase.Step autoSpawnTimeout offerId secret now p (.transferReceipt r) p' outs err)
    (hstate : (p.toSwap offerId secret).state = .waitForTaker)
    (hc : (p.toSwap offerId secret).takerCommitmentPool.lookup r.initiator = some c) :
    { role := .taker, commitment := c, receipt := r } ∈ p'.parties := by
  cases h with
  | undeclared hacc =>
    cases p with
    | waitForTaker m pool => cases hacc
    | executing e x => cases x <;> cases hstate
    | _ => cases hstate
  | takerDeposited =>
    rename_i e
    obtain rfl : e.taker.commitment = c := Option.some.inj (e.selected.symm.trans hc)
    exact List.mem_cons_of_mem _ (List.mem_singleton_self _)
  | takerBounced hno =>
    exact absurd (AList.lookup_isSome.mp (Option.isSome_iff_exists.mpr ⟨c, hc⟩)) hno
  | abandoned htr | uncommitted htr | untraded htr | failed htr => cases htr
  | executionBounced => rename_i e x; cases x <;> cases hstate
  | _ => cases hstate

/-! ## Offer ids -/

/-- The commitments of the swap name its offer. -/
def SwapCommitment.Addressed (o : SwapCommitment) : Prop :=
  (∀ c ∈ o.makerCommitmentMsg, c.offerId = o.offerId) ∧
    ∀ a, ∀ c ∈ o.takerCommitmentPool.lookup a, c.offerId = o.offerId

theorem Phase.Step.addressed {p p' : Phase C} {call : Call} {outs : List Output}
    {err : Option PyError}
    (h : Phase.Step autoSpawnTimeout offerId secret now p call p' outs err)
    (hinit : (p.toSwap offerId secret).state ≠ .initializing)
    (hp : (p.toSwap offerId secret).Addressed)
    (hcall : ∀ c, call = .takerCommitment c → c.offerId = offerId) :
    (p'.toSwap offerId secret).Addressed := by
  cases h with
  | makerCommitted _ | makerCommittedTooLate _ _ | abandoned _ => exact absurd rfl hinit
  | makerDeposited => exact ⟨hp.1, fun a c hc => by cases hc⟩
  | @takerQueued m pool c a hsender ha =>
    refine ⟨hp.1, ?_⟩
    intro b d hd
    by_cases hb : b = a
    · subst hb
      have hd' : (pool.commitments.insert b c).lookup b = some d := hd
      rw [AList.lookup_insert] at hd'
      cases hd'
      exact hcall c rfl
    · have hd' : (pool.commitments.insert a c).lookup b = some d := hd
      rw [AList.lookup_insert_ne hb] at hd'
      exact hp.2 b d hd'
  | _ => exact hp

/-- The swap that is called has the offer id that the message or transfer names. -/
theorem Registry.route_offerId {s : Service} (hs : Registry C s) {e : ServiceEvent} {i : Nat}
    {call : Call} {o : SwapCommitment} (h : s.route e = some (i, call))
    (ho : s.objects[i]? = some o) :
    (∀ c, call = .takerCommitment c → c.offerId = o.offerId) ∧
      ∀ r, call = .transferReceipt r → r.identifier = o.offerId := by
  have hfound {id : Nat} (hid : s.swaps.lookup id = some i) : id = o.offerId := by
    obtain ⟨o', ho', hid', -⟩ := hs.registered id i hid
    rw [ho] at ho'
    cases ho'
    exact hid'.symm
  cases e with
  | timer j =>
    simp only [Service.route] at h
    split at h <;> cases h
    exact ⟨fun _ hc => (by cases hc), fun _ hr => by cases hr⟩
  | commitment _ c =>
    obtain ⟨j, hl, ⟨⟩⟩ := Option.map_eq_some_iff.mp h
    exact ⟨fun c hc => (by cases hc; exact hfound hl), fun _ hr => by cases hr⟩
  | transferReceipt r =>
    obtain ⟨j, hl, ⟨⟩⟩ := Option.map_eq_some_iff.mp h
    exact ⟨fun _ hc => (by cases hc), fun r hr => by cases hr; exact hfound hl⟩
  | _ =>
    obtain ⟨j, hl, ⟨⟩⟩ := Option.map_eq_some_iff.mp h
    exact ⟨fun _ hc => (by cases hc), fun _ hr => by cases hr⟩

theorem Served.addressed {s s' : Service} {input : ServiceInput} {err : Option PyError}
    (hs : Registry C s) (h : Served C s input s' err) (ha : ∀ o ∈ s.objects, o.Addressed) :
    ∀ o ∈ s'.objects, o.Addressed := by
  cases h with
  | called hroute ho hstep =>
    rename_i i offerId secret call outs p p'
    intro o hmem
    simp only [Service.afterCall, s.taken_objects] at hmem
    rcases List.mem_or_eq_of_mem_set hmem with hmem | rfl
    · exact ha o hmem
    · refine hstep.addressed (hs.not_initializing ho) (ha _ (List.mem_of_getElem? ho)) ?_
      intro c hc
      rw [(hs.route_offerId hroute ho).1 c hc, Phase.toSwap_offerId]
  | created hl hstep =>
    intro o hmem
    rcases List.mem_append.mp hmem with hmem | hmem
    · exact ha o hmem
    · obtain rfl := List.mem_singleton.mp hmem
      exact ⟨fun c hc => (by cases hc; rfl), fun a c hc => by cases hc⟩
  | ignored hroute _ => rw [s.taken_objects]; exact ha

/-! ## The service -/

theorem Served.queued {s s' : Service} {input : ServiceInput} {err : Option PyError}
    (h : Served C s input s' err)
    (hq : s.messageQueue.filterMap asProof ~ s.objects.flatMap SwapCommitment.proofs) :
    s'.messageQueue.filterMap asProof ~ s'.objects.flatMap SwapCommitment.proofs := by
  cases h with
  | called hroute ho hstep =>
    rename_i i offerId secret call outs p p'
    have hmessages : (s.taken input.event).messageQueue = s.messageQueue := by
      cases input.event <;> rfl
    have hproofs : (p'.toSwap offerId secret).proofs =
        (p.toSwap offerId secret).proofs ++ (sent outs).filterMap asProof := by
      rw [Phase.toSwap_proofs, Phase.toSwap_proofs, hstep.sent, List.filterMap_append]
    have hset := List.flatMap_set_perm ho (p'.toSwap offerId secret) SwapCommitment.proofs
    simp only [Service.afterCall, hmessages, s.taken_objects, List.filterMap_append]
    refine (List.perm_append_right_iff (p.toSwap offerId secret).proofs).mp ?_
    calc s.messageQueue.filterMap asProof ++ (sent outs).filterMap asProof ++
          (p.toSwap offerId secret).proofs
        ~ s.messageQueue.filterMap asProof ++ (p'.toSwap offerId secret).proofs := by
          rw [hproofs, List.append_assoc]; exact List.perm_append_comm.append_left _
      _ ~ s.objects.flatMap SwapCommitment.proofs ++ (p'.toSwap offerId secret).proofs :=
          hq.append_right _
      _ ~ _ := hset.symm
  | created hl hstep =>
    simp only [Service.created, List.flatMap_append, List.flatMap_singleton]
    exact hq.trans (.of_eq (List.append_nil _).symm)
  | ignored hroute _ =>
    cases he : input.event <;> exact hq

/-- An input keeps the service certified when it is not a transfer that fails to cover. -/
theorem Served.certified {s s' : Service} {input : ServiceInput} {err : Option PyError}
    (hs : Registry C s) (ha : ∀ o ∈ s.objects, o.Addressed) (h : Served C s input s' err)
    (hc : Certified C s) (hcovers : ∀ r, input.event.receipt = some r → Covers C s r) :
    Certified C s' := by
  refine ⟨h.queued hc.queued, ?_⟩
  cases h with
  | called hroute ho hstep =>
    rename_i i offerId secret call outs p p'
    intro o hmem
    simp only [Service.afterCall, s.taken_objects] at hmem
    rcases List.mem_or_eq_of_mem_set hmem with hmem | rfl
    · exact hc.swaps o hmem
    have hold := hc.swaps _ (List.mem_of_getElem? ho)
    have haddressed := ha _ (List.mem_of_getElem? ho)
    -- an accepted transfer covers, and names the swap
    have hfound {r : TransferReceipt} (hr : call = .transferReceipt r) :
        (s.swap? r.identifier = some (p.toSwap offerId secret) ∧ Covers C s r) ∧
          r.identifier = offerId := by
      have hreceipt : input.event.receipt = some r := by
        rw [← Service.route_receipt hroute, hr]; rfl
      refine ⟨⟨(hs.route_transfer hroute ho hreceipt).1, hcovers r hreceipt⟩, ?_⟩
      rw [(hs.route_offerId hroute ho).2 r hr, Phase.toSwap_offerId]
    rcases hstep.stakes_cases with hsame | ⟨m, rfl, rfl, rfl⟩ | ⟨e, rfl, rfl, rfl⟩
    · -- the stakes are the old ones
      have hstakes : (p'.toSwap offerId secret).stakes = (p.toSwap offerId secret).stakes := by
        rw [Phase.toSwap_stakes, Phase.toSwap_stakes, hsame]
      refine ⟨by rw [hstakes]; exact hold.deposited, ?_⟩
      rw [hstakes]
      intro x hx hrole
      obtain ⟨c, hmaker, hhash⟩ := hold.matching x hx hrole
      exact ⟨c, hstep.kept.makerCommitmentMsg _ hmaker, hhash⟩
    · -- the maker's deposit
      obtain ⟨⟨hswap, hcov⟩, hid⟩ := hfound rfl
      have hamount := (hcov _ hswap).1 rfl m.commitment rfl m.committed
      have hoffer : m.commitment.offerId = offerId := haddressed.1 m.commitment rfl
      constructor
      · intro x hx
        rw [Phase.toSwap_stakes] at hx
        obtain rfl := List.mem_singleton.mp hx
        exact ⟨m.committed, by rw [Party.stake, hoffer, hid], hamount⟩
      · intro x hx hrole
        rw [Phase.toSwap_stakes] at hx
        obtain rfl := List.mem_singleton.mp hx
        cases hrole
    · -- the taker's deposit
      obtain ⟨⟨hswap, hcov⟩, hid⟩ := hfound rfl
      obtain ⟨hamount, hhash⟩ := (hcov _ hswap).2 rfl e.taker.commitment e.selected
      have hoffer : e.taker.commitment.offerId = offerId :=
        haddressed.2 _ e.taker.commitment e.selected
      have hmaker := hold.deposited (e.maker.stake .maker) (List.mem_singleton_self _)
      constructor
      · intro x hx
        rw [Phase.toSwap_stakes] at hx
        rcases List.mem_cons.mp hx with rfl | hx
        · exact hmaker
        · obtain rfl := List.mem_singleton.mp hx
          exact ⟨e.taker.committed, by rw [Party.stake, hoffer, hid], hamount⟩
      · intro x hx hrole
        rw [Phase.toSwap_stakes] at hx
        rcases List.mem_cons.mp hx with rfl | hx
        · cases hrole
        · obtain rfl := List.mem_singleton.mp hx
          exact ⟨e.maker.commitment, rfl, hhash _ rfl⟩
  | created hl hstep =>
    intro o hmem
    rcases List.mem_append.mp hmem with hmem | hmem
    · exact hc.swaps o hmem
    · obtain rfl := List.mem_singleton.mp hmem
      exact ⟨fun x hx => (by cases hx), fun x hx => by cases hx⟩
  | ignored hroute _ => rw [s.taken_objects]; exact hc.swaps

/-- A transfer that is accepted and fails to cover leaves a stake that is not certified. -/
theorem Served.not_certified {s s' : Service} {input : ServiceInput} {err : Option PyError}
    (hs : Registry C s) (h : Served C s input s' err) {r : TransferReceipt}
    (hr : input.event.receipt = some r) (hcovers : ¬ Covers C s r) : ¬ Certified C s' := by
  intro hafter
  apply hcovers
  intro o hswap
  cases h with
  | called hroute ho hstep =>
    rename_i i offerId secret call outs p p'
    obtain ⟨hfound, -⟩ := hs.route_transfer hroute ho hr
    obtain rfl : p.toSwap offerId secret = o := Option.some.inj (hfound.symm.trans hswap)
    have hcall : call = .transferReceipt r := by
      have hreceipt := (Service.route_receipt hroute).trans hr
      cases call <;> cases hreceipt
      rfl
    subst hcall
    have hmem : p'.toSwap offerId secret ∈
        ((s.taken input.event).afterCall i (p'.toSwap offerId secret) outs).objects := by
      have hi := (List.getElem?_eq_some_iff.mp ho).1
      simp only [Service.afterCall, s.taken_objects]
      exact List.mem_of_getElem? (List.getElem?_set_self hi)
    have hnew := hafter.swaps _ hmem
    refine ⟨?_, ?_⟩
    · intro hstate c hc hsender
      have hstakes := hstep.makerStake hstate hc hsender
      exact (hnew.deposited { role := .maker, commitment := c, receipt := r }
        (by rw [Phase.toSwap_stakes, hstakes]; exact List.mem_singleton_self _)).2.2
    · intro hstate c hc
      have hstake := hstep.takerStake hstate hc
      rw [← p'.toSwap_stakes offerId secret] at hstake
      refine ⟨(hnew.deposited _ hstake).2.2, ?_⟩
      intro d hd
      obtain ⟨d', hd', hhash⟩ := hnew.matching _ hstake rfl
      have hkept := hstep.kept.makerCommitmentMsg d hd
      rw [hkept] at hd'
      cases hd'
      exact hhash
  | created hl hstep => cases hr
  | ignored hroute _ =>
    cases he : input.event with
    | transferReceipt r' =>
      rw [he] at hr hroute
      cases hr
      rw [Service.swap?_none (Option.map_eq_none_iff.mp hroute)] at hswap
      cases hswap
    | _ => rw [he] at hr; cases hr

/-- In every run: every queued commitment proof certifies a deposit that covers its commitment,
and a taker's the commitment to the maker's offer, exactly when every transfer that is accepted
covers its commitment and every taker commitment that is accepted is to the maker's offer. -/
theorem certified_iff (C : Crypto) (is : List ServiceInput) :
    (∀ pre, pre <+: is → Certified C (serviceRun C pre)) ↔
      LTS.AllSteps (serviceStep C)
        (fun s input => ∀ r, input.event.receipt = some r → Covers C s r) .init is := by
  have hserved {s : Service} (hs : Registry C s) (input : ServiceInput) :
      ∃ err, Served C s input (serviceStep C s input) err := by
    obtain ⟨s', err, hserved, hrun⟩ := served hs input
    exact ⟨err, by rw [serviceStep, hrun, EStateM.Result.state_of]; exact hserved⟩
  refine LTS.prefixes_iff_allSteps
    (I := fun s => Registry C s ∧ ∀ o ∈ s.objects, o.Addressed) (P := fun _ s => Certified C s)
    ⟨.init, fun o ho => by cases ho⟩ ?_ ⟨.refl _, fun o ho => by cases ho⟩ ?_ ?_ is
  · rintro s input ⟨hs, ha⟩
    obtain ⟨err, h⟩ := hserved hs input
    exact ⟨registry_step hs input, h.addressed hs ha⟩
  · rintro h s input ⟨hs, ha⟩ hc hcovers
    obtain ⟨err, hstep⟩ := hserved hs input
    exact hstep.certified hs ha hc hcovers
  · rintro h s input ⟨hs, ha⟩ hc hcovers
    simp only [not_forall] at hcovers
    obtain ⟨r, hr, hcovers⟩ := hcovers
    obtain ⟨err, hstep⟩ := hserved hs input
    exact hstep.not_certified hs hr hcovers

/-- Maker `1` commits to an amount of 10 and transfers 0. -/
def dustInputs : List ServiceInput :=
  [.commitment 0 (commitmentOf (some 1)),
    .transferReceipt { depositOf 1 with amount := 0 }].map fun event => { now := 0, event := event }

/-- The service proves a commitment for which nothing was paid. -/
theorem dust_deposit_proved :
    (∃ q, (.commitmentProof q, some 1) ∈ (serviceRun .plain dustInputs).messageQueue ∧
      q.commitmentSig = (commitmentOf (some 1)).signature) ∧
    ¬ Certified .plain (serviceRun .plain dustInputs) := by
  constructor
  · refine ⟨(SwapCommitment.new .plain 7 0).commitmentProof (commitmentOf (some 1)), ?_, rfl⟩
    decide +kernel
  · intro h
    have hall : ∀ o ∈ (serviceRun .plain dustInputs).objects, ∀ x ∈ o.stakes,
        x.commitment.amount ≤ x.receipt.amount :=
      fun o ho x hx => ((h.swaps o ho).deposited x hx).2.2
    revert hall
    decide +kernel

end CommitmentService
end Raidex
