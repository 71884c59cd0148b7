import Raidex.CommitmentService.Engagements
import Raidex.Protocol.System
import Raidex.RaidexNode.Withdrawal

/-!
# Raidex.Protocol.OneSided

Whether the taker of an offer pays while its maker has withdrawn it.

* `Guarded`: no race of a cancellation with a taker is lost, and no late commitment of a taker
  passes for one of a maker.
* `SwapInv`: what holds of one offer after every guarded run.
* `no_one_sided_swap`: once the taker pays, the maker has paid or still can.
* `paid_after_timeout`: runs in which the maker withdraws an offer and the taker pays for it.
-/

namespace Raidex
namespace Protocol

open CommitmentService (FirstFromMaker OneSwap Served Service ServiceInput serviceStep)
open RaidexNode (App Event InLeaves Kept Managed Offer OfferRef Paid StateChange TakerPays)

/-- The node has made the offer under this id. -/
def Makes (offerId : Nat) (o : Offer) : Prop := o.traderRole = .maker ∧ o.offerId = offerId

instance (offerId : Nat) (o : Offer) : Decidable (Makes offerId o) :=
  inferInstanceAs (Decidable (_ ∧ _))

/-- The node is about to time out its offer, while this is open. -/
def GivesUp (offerId : Nat) (a : App) : App.Input → Prop
  | .handle _ => a.running = true ∧ ∃ sc ∈ a.stateChanges.head?, ∃ r ∈ a.node.timedOut sc,
      ∃ o ∈ a.node.offers[r]?, Makes offerId o ∧ o.isModel = true ∧ o.state.status = .open_
  | _ => False

instance (offerId : Nat) (a : App) (i : App.Input) : Decidable (GivesUp offerId a i) :=
  match i with
  | .handle _ => inferInstanceAs (Decidable (_ ∧ ∃ _ ∈ _, _))
  | .postLimitOrder .. | .deleteLimitOrder _ | .makeChannel .. | .commitmentProof _
  | .cancellationProof _ | .broadcast _ | .provenOffer _ | .payment _ | .channelStatus _ | .timer _
  | .startListener | .serveCommitmentService _ | .serveRaidenListener => .isFalse id

/-- The maker does not time out its offer once a taker is engaged; no taker is engaged once the
maker asks for the cancellation; and a commitment to an offer without a swap is not the taker's,
but the first one. -/
def Guarded (P : Parties) (offerId : Nat) (g : System) : Input → Prop
  | .node .maker i => g.service.HasTaker offerId → ¬ GivesUp offerId g.maker i
  | .service i =>
    match i.event with
    | .transferReceipt r => r.identifier = offerId → g.service.AwaitsDeposit r →
        ∀ o ∈ g.maker.node.offers, Makes offerId o → o.state ≠ .openCancellationRequested
    | .commitment _ c => c.offerId = offerId → g.service.swaps.lookup offerId = none →
        sender P.crypto c ≠ .ok P.taker ∧ ∀ x ∈ g.service.objects, x.offerId ≠ offerId
    | _ => True
  | _ => True

instance (P : Parties) (offerId : Nat) (g : System) (i : Input) :
    Decidable (Guarded P offerId g i) :=
  match i with
  | .node .maker _ => inferInstanceAs (Decidable (_ → ¬ _))
  | .node .taker _ | .offerTaken .. => .isTrue trivial
  | .service { now := _, event := .transferReceipt _ } =>
    inferInstanceAs (Decidable (_ → _ → ∀ _ ∈ _, _ → _))
  | .service { now := _, event := .commitment .. } =>
    inferInstanceAs (Decidable (_ → _ → _ ∧ _))
  | .service { now := _, event := .swapExecution _ }
  | .service { now := _, event := .cancellation _ }
  | .service { now := _, event := .timer _ } => .isTrue trivial

/-! ## Channels -/

section

variable {P : Parties} {g : System} {side : Side}

/-- A commitment that was sent is signed by its node. -/
theorem sender_commitments {c : Commitment} (h : c ∈ P.commitments g side) :
    sender P.crypto c = .ok (P.address side) := by
  obtain ⟨e, -, he⟩ := List.mem_filterMap.mp h
  cases e with
  | commitment target r amount =>
    simp only [Option.bind_eq_bind, Option.bind_eq_some_iff] at he
    obtain ⟨o, -, c₀, -, he⟩ := he
    split at he
    · have hc : Signed.signature c =
          some (P.sign (P.address side) (hashWithoutSignature P.crypto c)) := by cases he; rfl
      simp only [sender, hc, P.recovers]
    · cases he
  | _ => cases he

/-- A proof that is delivered was queued for the node. -/
theorem queued_commitmentProofs {p : CommitmentProof} (h : p ∈ P.commitmentProofs g side) :
    ∃ q, (.commitmentProof q, some (P.address side)) ∈ g.service.messageQueue ∧
      q.offerId = p.offerId := by
  obtain ⟨⟨msg, topic⟩, hq, he⟩ := List.mem_filterMap.mp h
  cases msg with
  | commitmentProof q =>
    simp only at he
    split at he
    next htopic =>
      cases he
      exact ⟨q, htopic ▸ hq, rfl⟩
    · cases he
  | _ => cases he

theorem queued_cancellationProofs {p : CancellationProof}
    (h : p ∈ P.cancellationProofs g side) : g.service.Withdrawn p.offerId := by
  obtain ⟨⟨msg, topic⟩, hq, he⟩ := List.mem_filterMap.mp h
  cases msg with
  | cancellationProof q =>
    simp only at he
    split at he
    · cases he
      exact ⟨q, topic, hq, rfl⟩
    · cases he
  | _ => cases he

end

/-! ## The maker -/

/-- What holds of the maker's node while the service is in state `s`. -/
structure MakerInv (offerId : Nat) (s : Service) (a : App) : Prop where
  managed : Managed a.node
  leaves : InLeaves a.node
  paid : Paid a.node
  requested : s.HasTaker offerId → ∀ (r : OfferRef) (o : Offer), a.node.offers[r]? = some o →
    Makes offerId o → o.state ≠ .openCancellationRequested
  canceled : ∀ (r : OfferRef) (o : Offer), a.node.offers[r]? = some o → Makes offerId o →
    o.state = .canceled → s.Withdrawn offerId
  canceling : ∀ p, StateChange.cancellationProof p ∈ a.stateChanges → p.offerId = offerId →
    s.Withdrawn offerId

namespace MakerInv

variable {C : Crypto} {offerId : Nat} {s s' : Service} {a : App} {i : App.Input}

theorem init (market : RaidexNode.TokenPair) (address : Address) :
    MakerInv offerId .init (.init market address) where
  managed := .init market
  leaves r o ho := by simp [App.init, RaidexNode.Node.init] at ho
  paid := .init market
  requested _ r o ho := by simp [App.init, RaidexNode.Node.init] at ho
  canceled r o ho := by simp [App.init, RaidexNode.Node.init] at ho
  canceling p hp := by simp [App.init] at hp

theorem step (h : MakerInv offerId s a)
    (hproof : ∀ p, i = .cancellationProof p → p.offerId = offerId → s.Withdrawn offerId)
    (hguard : s.HasTaker offerId → ¬ GivesUp offerId a i) : MakerInv offerId s (a.step C i) where
  managed := h.managed.step
  leaves := h.leaves.step
  paid := h.paid.step
  requested ht r o' ho' hmakes hstate := by
    rcases RaidexNode.requested_step ho' hstate with
      ho' | ⟨env, sc, o, rfl, hrun, hq, htimes, hlater⟩
    · exact h.requested ht r o' ho' hmakes hstate
    · -- a taker is engaged, so the maker does not give up
      have hmakes' : Makes offerId o :=
        ⟨hlater.traderRole.symm.trans hmakes.1, hlater.offerId.symm.trans hmakes.2⟩
      exact hguard ht ⟨hrun, sc, hq, r, htimes.timedOut, o, htimes.offer, hmakes', htimes.isModel,
        htimes.status⟩
  canceled r o' ho' hmakes hstate := by
    rcases RaidexNode.canceled_step h.managed ho' hstate with ho' | ⟨p, hp, hid⟩
    · exact h.canceled r o' ho' hmakes hstate
    · exact h.canceling p hp (hid.trans hmakes.2)
  canceling p hp hid := by
    rcases App.stateChanges_step hp with hp | hp
    · exact h.canceling p hp hid
    · exact hproof p hp hid

/-- The service goes on: a proof stays queued, and a taker is engaged only while the maker does
not ask for the cancellation. -/
theorem served (h : MakerInv offerId s a) (hw : s.Withdrawn offerId → s'.Withdrawn offerId)
    (ht : s'.HasTaker offerId → s.HasTaker offerId ∨
      ∀ o ∈ a.node.offers, Makes offerId o → o.state ≠ .openCancellationRequested) :
    MakerInv offerId s' a where
  managed := h.managed
  leaves := h.leaves
  paid := h.paid
  requested ht' r o ho hmakes :=
    (ht ht').elim (fun ht => h.requested ht r o ho hmakes)
      fun hall => hall o (List.mem_of_getElem? ho) hmakes
  canceled r o ho hmakes hstate := hw (h.canceled r o ho hmakes hstate)
  canceling p hp hid := hw (h.canceling p hp hid)

/-- The offer book does not matter. -/
theorem congr {b : App} (h : MakerInv offerId s a) (hoffers : b.node.offers = a.node.offers)
    (hmanager : b.node.offerManager = a.node.offerManager) (hevents : b.node.events = a.node.events)
    (hq : b.stateChanges = a.stateChanges) : MakerInv offerId s b where
  managed := h.managed.advances (.of_eq hoffers) hmanager
  leaves := by rw [InLeaves, hoffers]; exact h.leaves
  paid := h.paid.of_eq hoffers (by rw [hevents]; exact fun _ he => he)
  requested := by rw [hoffers]; exact h.requested
  canceled := by rw [hoffers]; exact h.canceled
  canceling := by rw [hq]; exact h.canceling

end MakerInv

/-! ## The taker -/

/-- What holds of the taker's node while the service is in state `s`. -/
structure TakerInv (offerId : Nat) (s : Service) (a : App) : Prop where
  kept : Kept a
  proving : ∀ p, StateChange.commitmentProof p ∈ a.stateChanges → p.offerId = offerId →
    s.HasTaker offerId
  pays : TakerPays (fun id => id = offerId → s.HasTaker offerId) a.node

namespace TakerInv

variable {C : Crypto} {offerId : Nat} {s s' : Service} {a : App} {i : App.Input}

theorem init (market : RaidexNode.TokenPair) (address : Address) :
    TakerInv offerId .init (.init market address) where
  kept _ := .init market
  proving p hp := by simp [App.init] at hp
  pays := .init market

theorem step (h : TakerInv offerId s a)
    (hproof : ∀ p, i = .commitmentProof p → p.offerId = offerId → s.HasTaker offerId) :
    TakerInv offerId s (a.step C i) where
  kept := h.kept.step
  proving p hp hid := by
    rcases App.stateChanges_step hp with hp | hp
    · exact h.proving p hp hid
    · exact hproof p hp hid
  pays := h.pays.step h.kept h.proving

theorem served (h : TakerInv offerId s a) (ht : s.HasTaker offerId → s'.HasTaker offerId) :
    TakerInv offerId s' a where
  kept := h.kept
  proving p hp hid := ht (h.proving p hp hid)
  pays m hm hrole := by
    obtain ⟨r, o, hr, ho, hQ⟩ := h.pays m hm hrole
    exact ⟨r, o, hr, ho, fun hid => ht (hQ hid)⟩

theorem congr {b : App} (h : TakerInv offerId s a) (hoffers : b.node.offers = a.node.offers)
    (hmanager : b.node.offerManager = a.node.offerManager)
    (hmatches : b.node.matchesById = a.node.matchesById) (hevents : b.node.events = a.node.events)
    (hrun : b.running = a.running) (hq : b.stateChanges = a.stateChanges) :
    TakerInv offerId s b where
  kept hr := (h.kept (hrun ▸ hr)).of_eq hoffers hmanager hmatches
  proving := by rw [hq]; exact h.proving
  pays := h.pays.of_advances (.of_eq hoffers) fun m hm => hevents ▸ hm

end TakerInv

/-! ## Runs -/

structure SwapInv (P : Parties) (offerId : Nat) (g : System) : Prop where
  service : OneSwap P.crypto P.maker P.taker offerId g.service
  maker : MakerInv offerId g.service g.maker
  taker : TakerInv offerId g.service g.taker

theorem processOfferTaken_cases (a : App) (offerId : Nat) : ∃ book,
    processOfferTaken a offerId = { a with node := { a.node with offerBook := book } } := by
  unfold processOfferTaken
  split
  · split
    · exact ⟨_, rfl⟩
    · exact ⟨a.node.offerBook, rfl⟩
  · exact ⟨a.node.offerBook, rfl⟩

section

variable {P : Parties} {offerId : Nat} {g : System}

theorem SwapInv.init : SwapInv P offerId P.init :=
  ⟨.init, .init P.market P.service, .init P.market P.service⟩

/-- A delivered commitment comes from one of the two nodes. -/
theorem first_fromMaker {i : ServiceInput} (hd : Delivers P g (.service i))
    (hguard : Guarded P offerId g (.service i)) :
    FirstFromMaker P.crypto P.maker offerId g.service i.event := by
  obtain ⟨now, event⟩ := i
  rintro secret c rfl hid hl
  obtain ⟨htaker, hno⟩ := hguard hid hl
  refine ⟨?_, hno⟩
  rcases List.mem_append.mp hd with hc | hc
  · exact sender_commitments hc
  · exact absurd (sender_commitments hc) htaker

theorem SwapInv.step (h : SwapInv P offerId g) {i : Input}
    (hi : Delivers P g i ∧ Guarded P offerId g i) : SwapInv P offerId (step P g i) := by
  obtain ⟨hd, hguard⟩ := hi
  cases i with
  | node side i =>
    cases side with
    | maker =>
      refine ⟨h.service, h.maker.step ?_ hguard, h.taker⟩
      rintro p rfl rfl
      exact queued_cancellationProofs hd
    | taker =>
      refine ⟨h.service, h.maker, h.taker.step ?_⟩
      rintro p rfl rfl
      obtain ⟨q, hq, hid⟩ := queued_commitmentProofs hd
      exact h.service.proved q hq hid
  | offerTaken side id =>
    cases side with
    | maker =>
      obtain ⟨book, hbook⟩ := processOfferTaken_cases g.maker id
      refine ⟨h.service, ?_, h.taker⟩
      show MakerInv offerId g.service (processOfferTaken g.maker id)
      rw [hbook]
      exact h.maker.congr rfl rfl rfl rfl
    | taker =>
      obtain ⟨book, hbook⟩ := processOfferTaken_cases g.taker id
      refine ⟨h.service, h.maker, ?_⟩
      show TakerInv offerId g.service (processOfferTaken g.taker id)
      rw [hbook]
      exact h.taker.congr rfl rfl rfl rfl rfl rfl
  | service i =>
    obtain ⟨s', err, hserved, hrun⟩ := CommitmentService.served h.service.registry i
    have hstep : serviceStep P.crypto g.service i = s' := by
      rw [serviceStep, hrun, EStateM.Result.state_of]
    refine ⟨?_, ?_, ?_⟩ <;> simp only [Protocol.step, hstep]
    · exact h.service.served P.distinct hserved (first_fromMaker hd hguard)
    · refine h.maker.served hserved.withdrawn ?_
      intro ht
      refine (hserved.hasTaker_cases h.service.registry ht).imp_right ?_
      rintro ⟨r, he, hid, hawaits⟩
      obtain ⟨now, event⟩ := i
      subst he
      exact hguard hid hawaits
    · exact h.taker.served hserved.hasTaker

/-- Once the taker of an offer pays, its maker has not withdrawn it and has paid or still can, in
every run in which the messages and payments are those of the parties, the maker does not time out
an offer that is taken, nobody takes an offer that the maker wants to cancel, and no late
commitment of the taker passes for one of a maker. -/
theorem no_one_sided_swap (P : Parties) (offerId : Nat) (is : List Input)
    (h : LTS.AllSteps (step P) (fun g i => Delivers P g i ∧ Guarded P offerId g i) P.init is)
    (m : RaidexNode.Match) (r : OfferRef) (o : Offer)
    (hm : Event.trader (.swapInit m) ∈ (run P is).taker.node.events) (hrole : m.traderRole = .taker)
    (hr : m.offer = some r) (ho : (run P is).taker.node.offers[r]? = some o)
    (hid : o.offerId = offerId) (r' : OfferRef) (o' : Offer)
    (ho' : (run P is).maker.node.offers[r']? = some o') (hmakes : Makes offerId o') :
    o'.state ≠ .openCancellationRequested ∧ o'.state ≠ .canceled ∧
      ((∃ m', m'.offer = some r' ∧ Event.trader (.swapInit m') ∈ (run P is).maker.node.events) ∨
        o'.state.Exchangeable) := by
  have hinv : SwapInv P offerId (run P is) := LTS.run_invariant_of_guard (step P) _
    (fun _ g => SwapInv P offerId g) .init (fun _ _ _ hg hi => hg.step hi) is h
  obtain ⟨r₁, o₁, hr₁, ho₁, htaker⟩ := hinv.taker.pays m hm hrole
  cases hr.symm.trans hr₁
  cases ho.symm.trans ho₁
  have ht : (run P is).service.HasTaker offerId := htaker hid
  have hrequested := hinv.maker.requested ht r' o' ho' hmakes
  have hcanceled : o'.state ≠ .canceled := fun hstate =>
    hinv.service.not_withdrawn ht (hinv.maker.canceled r' o' ho' hmakes hstate)
  refine ⟨hrequested, hcanceled, ?_⟩
  cases he : o'.state.engaged with
  | true => exact .inl (hinv.maker.paid r' o' ho' he)
  | false =>
    exact .inr (RaidexNode.OfferState.exchangeable (hinv.maker.leaves r' o' ho')
      hrequested hcanceled he)

end

/-! ## An offer of `5` for `5` -/

/-- A signature shows its signer. -/
def plainParties : Parties where
  crypto := .plain
  market := { baseToken := 1, quoteToken := 2 }
  service := 9
  maker := 3
  taker := 4
  sign a _ := a.setWidth 520
  refundTask := { commitmentTokenAddress := 5, feeRate := none }
  distinct := by decide
  recovers a h := by simp [Crypto.plain, BitVec.setWidth_setWidth_of_le]

def handling (side : Side) (offerUuid : Nat) : Input :=
  .node side (.handle { now := 0, orderUuid := 0, offerUuid := offerUuid })

def committing (committer : Address) : Input :=
  .service { now := 0, event := .commitment 8 { offerId := 7, offerHash := 0, timeout := 60000
                                                amount := 10 ^ 18
                                                signature := some (committer.setWidth 520) } }

def depositing (committer : Address) : Input :=
  .service { now := 0, event := .transferReceipt { initiator := committer, amount := 10 ^ 18
                                                   identifier := 7, timestamp := 0 } }

def commitmentProved (committer : Address) : CommitmentProof where
  commitmentSig := some (committer.setWidth 520)
  secret := 8
  secretHash := 32
  offerId := 7
  signature := some 9

/-- The maker's offer is proved. -/
def makerOffers : List Input :=
  [.node .maker (.postLimitOrder 1 "SELL" (.int 5) (Float.Model.ofInt 1)), handling .maker 7,
   .node .maker (.serveCommitmentService 0), committing 3, depositing 3,
   .node .maker (.commitmentProof (commitmentProved 3)), handling .maker 0]

/-- The taker gets the broadcast and matches it with its own order. -/
def takerCommits : List Input :=
  [.node .taker (.broadcast { offer := { askToken := 2, askAmount := 5, bidToken := 1
                                         bidAmount := 5, offerId := 7, timeout := 60000 }
                              commitmentProof := commitmentProved 3, signature := some 3 }),
   handling .taker 0, .node .taker (.postLimitOrder 2 "BUY" (.int 5) (Float.Model.ofInt 1)),
   handling .taker 0, .node .taker (.serveCommitmentService 0)]

/-- The service engages the taker, and the taker pays. -/
def takerPays : List Input :=
  [committing 4, depositing 4, .node .taker (.commitmentProof (commitmentProved 4)),
   handling .taker 0]

/-- The timer of the maker's offer fires. -/
def makerGivesUp : List Input := [.node .maker (.timer 7), handling .maker 0]

/-- The service cancels the swap, and the maker's offer is canceled. -/
def makerCancels : List Input :=
  [.node .maker (.serveCommitmentService 0),
   .service { now := 0, event := .cancellation { offerId := 7, signature := some 3 } },
   .node .maker (.cancellationProof { offerId := 7
                                      cancellationProof :=
                                        { commitmentProved 3 with signature := none }
                                      signature := some 9 }),
   handling .maker 0]

def fiveForFive (role : RaidexNode.TraderRole) (proof : CommitmentProof)
    (state : RaidexNode.OfferState) : Offer where
  offerId := 7
  type := .sell
  baseAmount := .int 5
  quoteAmount := .int 5
  timeoutDate := 60000
  traderRole := role
  proof := some proof
  isModel := true
  state := state

def takersMatch : RaidexNode.Match where
  offer := some 0
  traderRole := .taker
  target := 3
  commitmentProof := commitmentProved 3

/-- The taker has paid, and the maker's call is still to come. -/
theorem maker_still_pays :
    (fiveForFive .maker (commitmentProved 3) .openProved).state ≠ .openCancellationRequested ∧
    (fiveForFive .maker (commitmentProved 3) .openProved).state ≠ .canceled ∧
    ((∃ m', m'.offer = some 0 ∧ Event.trader (.swapInit m') ∈
        (run plainParties (makerOffers ++ takerCommits ++ takerPays)).maker.node.events) ∨
      (fiveForFive .maker (commitmentProved 3) .openProved).state.Exchangeable) :=
  no_one_sided_swap plainParties 7 (makerOffers ++ takerCommits ++ takerPays) (by decide +kernel)
    takersMatch 0 (fiveForFive .taker (commitmentProved 4) .pendingExchanging) (by decide +kernel)
    rfl rfl (by decide +kernel) rfl 0 (fiveForFive .maker (commitmentProved 3) .openProved)
    (by decide +kernel) ⟨rfl, rfl⟩

/-- Only what was sent was delivered, and the taker has paid while the maker's offer is in this
state. -/
def PaidWhile (is : List Input) (state : RaidexNode.OfferState) : Prop :=
  LTS.AllSteps (step plainParties) (Delivers plainParties) plainParties.init is ∧
    Event.trader (.swapInit takersMatch) ∈ (run plainParties is).taker.node.events ∧
    (run plainParties is).taker.node.offers[0]? =
      some (fiveForFive .taker (commitmentProved 4) .pendingExchanging) ∧
    (run plainParties is).maker.node.offers[0]? =
      some (fiveForFive .maker (commitmentProved 3) state)

instance (is : List Input) (state : RaidexNode.OfferState) : Decidable (PaidWhile is state) :=
  inferInstanceAs (Decidable (_ ∧ _))

/-- The timer fires after the taker has paid, or before the service engages it; or the taker's
commitment comes in after the swap was canceled. -/
theorem paid_after_timeout :
    PaidWhile (makerOffers ++ takerCommits ++ takerPays ++ makerGivesUp)
      .openCancellationRequested ∧
    PaidWhile (makerOffers ++ takerCommits ++ makerGivesUp ++ takerPays)
      .openCancellationRequested ∧
    PaidWhile (makerOffers ++ takerCommits ++ makerGivesUp ++ makerCancels ++ takerPays)
      .canceled := by
  decide +kernel

end Protocol
end Raidex
