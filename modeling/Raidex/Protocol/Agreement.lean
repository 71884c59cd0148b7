import Raidex.CommitmentService.Secrets
import Raidex.Protocol.OneSided
import Raidex.RaidexNode.Sources

/-!
# Raidex.Protocol.Agreement

Whether the two sides of a trade mean the same: each pays only after both have made their
deposits, under the one secret of the swap, and the taker pays for what the maker offered.

* `Issued`, `Offered`: the proofs that the service has sent, and the offers of the nodes.
* `Agreement`: what both nodes know comes from there.
* `payments_agree`: so does every match that one of them pays for.
-/

namespace Raidex
namespace Protocol

open CommitmentService (Secrets ServiceInput)
open RaidexNode (App BasicOffer Event)

/-- The service has sent the node at the address this proof for the offer. -/
def Issued (P : Parties) (g : System) (a : Address) (offerId : Nat) (p : CommitmentProof) : Prop :=
  ∃ side, P.address side = a ∧ p ∈ P.commitmentProofs g side ∧ p.offerId = offerId

/-- The node at the address has an offer with these terms. -/
def Offered (P : Parties) (g : System) (a : Address) (b : BasicOffer Number) : Prop :=
  ∃ side, P.address side = a ∧ ∃ o ∈ (g.node side).node.offers, o.toBasicOffer = b

/-- No offer gets a second swap. -/
def Unmade (g : System) : Input → Prop
  | .service i => g.service.Unmade i.event
  | _ => True

instance (g : System) (i : Input) : Decidable (Unmade g i) :=
  match i with
  | .service _ => inferInstanceAs (Decidable (g.service.Unmade _))
  | .node .. | .offerTaken .. => .isTrue trivial

structure Agreement (P : Parties) (g : System) : Prop where
  service : Secrets P.crypto g.service
  sourced : ∀ side,
    (g.node side).Sourced (Issued P g) (Offered P g) P.market (P.address side)

section

variable {P : Parties} {g : System} {side : Side} {i : Input}

theorem node_setNode (g : System) (a : App) (side side' : Side) :
    (g.setNode a side).node side' = if side' = side then a else g.node side' := by
  cases side <;> cases side' <;> rfl

theorem service_setNode (g : System) (a : App) (side : Side) :
    (g.setNode a side).service = g.service := by
  cases side <;> rfl

/-! ## What is known stays known -/

theorem Issued.mono {g' : System} (h : ∀ e ∈ g.service.messageQueue, e ∈ g'.service.messageQueue)
    (a : Address) (offerId : Nat) (p : CommitmentProof) (hp : Issued P g a offerId p) :
    Issued P g' a offerId p := by
  obtain ⟨side, ha, hp, hid⟩ := hp
  obtain ⟨e, he, hsent⟩ := List.mem_filterMap.mp hp
  exact ⟨side, ha, List.mem_filterMap.mpr ⟨e, h e he, hsent⟩, hid⟩

theorem Offered.mono {g' : System}
    (h : ∀ side, (g.node side).node.Advances (g'.node side).node) (a : Address)
    (b : BasicOffer Number) (hb : Offered P g a b) : Offered P g' a b := by
  obtain ⟨side, ha, o, ho, rfl⟩ := hb
  obtain ⟨r, hr⟩ := List.mem_iff_getElem?.mp ho
  obtain ⟨o', ho', hlater⟩ := h side r o hr
  exact ⟨side, ha, o', List.mem_of_getElem? ho', hlater.basic⟩

theorem processOfferTaken_book (a : App) (offerId : Nat) : ∃ book,
    processOfferTaken a offerId = { a with node := { a.node with offerBook := book } } ∧
      ∀ e ∈ book.values, e ∈ a.node.offerBook.values := by
  unfold processOfferTaken
  split
  · split
    next book hrem =>
      exact ⟨book, rfl, fun e he => RaidexNode.OfferBook.of_mem_values_removeOffer hrem he⟩
    · exact ⟨a.node.offerBook, rfl, fun e he => he⟩
  · exact ⟨a.node.offerBook, rfl, fun e he => he⟩

theorem step_advances (P : Parties) (g : System) (i : Input) (side : Side) :
    (g.node side).node.Advances ((step P g i).node side).node := by
  cases i with
  | node side' i =>
    simp only [step, node_setNode]
    split
    next hside => subst hside; exact App.step_advances _ _ _
    next => exact .of_eq rfl
  | offerTaken side' offerId =>
    simp only [step, node_setNode]
    split
    next hside =>
      subst hside
      obtain ⟨book, hbook, -⟩ := processOfferTaken_book (g.node side) offerId
      exact .of_eq (by rw [hbook])
    next => exact .of_eq rfl
  | service i => cases side <;> exact .of_eq rfl

/-! ## What is sent -/

/-- A proven offer shows an offer of its sender. -/
theorem offer_of_sent {topic : Option Address} {m : ProvenOffer}
    (hm : m ∈ P.provenOffers g side topic) : ∃ (r : RaidexNode.OfferRef) (o : RaidexNode.Offer),
      (g.node side).node.offers[r]? = some o ∧ o.proof = some m.commitmentProof ∧
      RaidexNode.provenOfferMsg P.crypto (P.sign (P.address side)) o.toBasicOffer
        m.commitmentProof (g.node side).node.market = some m := by
  obtain ⟨e, -, he⟩ := List.mem_filterMap.mp hm
  cases e with
  | sendProvenOffer r target =>
    simp only [Option.bind_eq_bind, Option.bind_eq_some_iff] at he
    obtain ⟨o, ho, proof, hproof, he⟩ := he
    split at he
    · obtain ⟨-, rfl, -⟩ := RaidexNode.provenOfferMsg_some he
      exact ⟨r, o, ho, hproof, he⟩
    · cases he
  | _ => cases he

/-- The sender has got the proof that it shows. -/
theorem Agreement.sent (h : Agreement P g) {topic : Option Address} {m : ProvenOffer}
    (hm : m ∈ P.provenOffers g side topic) : ∃ o ∈ (g.node side).node.offers,
      Issued P g (P.address side) o.offerId m.commitmentProof ∧
      RaidexNode.provenOfferMsg P.crypto (P.sign (P.address side)) o.toBasicOffer
        m.commitmentProof P.market = some m := by
  obtain ⟨r, o, ho, hproof, hmsg⟩ := offer_of_sent hm
  rw [(h.sourced side).market] at hmsg
  obtain ⟨hissued, hid⟩ := ((h.sourced side).traced.kept r o ho).received _ hproof
  exact ⟨o, List.mem_of_getElem? ho, hid ▸ hissued, hmsg⟩

/-- The signer of a proven offer on a topic is its sender. -/
theorem sender_of_sent {topic : Option Address} {m : ProvenOffer}
    (hm : m ∈ P.provenOffers g side topic) : sender P.crypto m = .ok (P.address side) := by
  obtain ⟨r, o, -, -, hmsg⟩ := offer_of_sent hm
  obtain ⟨-, -, hsignature⟩ := RaidexNode.provenOfferMsg_some hmsg
  have hs : Signed.signature m =
      some (P.sign (P.address side) (hashWithoutSignature P.crypto m)) := hsignature
  simp only [sender, hs, P.recovers]

theorem Agreement.delivered (h : Agreement P g) (hmarket : P.market.baseToken ≠ P.market.quoteToken)
    {i : App.Input} (hd : Delivers P g (.node side i)) :
    i.Traced (Issued P g) (Offered P g) P.crypto P.market (P.address side) := by
  cases i with
  | commitmentProof p => exact ⟨side, rfl, hd, rfl⟩
  | provenOffer m =>
    obtain ⟨o, ho, hproof, hmsg⟩ := h.sent hd
    obtain ⟨hoffer, -, -⟩ := RaidexNode.provenOfferMsg_some hmsg
    have hid := (RaidexNode.createOfferMsg_some hoffer).1
    intro initiator hsender
    cases (sender_of_sent hd).symm.trans hsender
    rw [hid]
    exact ⟨hproof, _, ⟨side.other, rfl, o, ho, rfl⟩, rfl⟩
  | broadcast m =>
    have hsent : ∃ side', m ∈ P.provenOffers g side' none :=
      (List.mem_append.mp hd).elim (fun hm => ⟨.maker, hm⟩) fun hm => ⟨.taker, hm⟩
    obtain ⟨side', hm⟩ := hsent
    obtain ⟨o, ho, hproof, hmsg⟩ := h.sent hm
    obtain ⟨e, he, hterms, hinitiator, hcopy⟩ :=
      RaidexNode.toEntry_provenOfferMsg (P.recovers (P.address side')) hmarket hmsg
    intro e' he'
    cases he.symm.trans he'
    refine ⟨?_, side', hinitiator.symm, o, ho, hterms.symm⟩
    have hid : e.offerId = o.offerId := congrArg BasicOffer.offerId hterms
    rw [hid, hcopy, hinitiator]
    exact hproof
  | _ => trivial

/-! ## Runs -/

theorem Agreement.init : Agreement P P.init where
  service := .init
  sourced side := by cases side <;> exact .init P.market P.service

theorem Agreement.step (h : Agreement P g) (hmarket : P.market.baseToken ≠ P.market.quoteToken)
    (hd : Delivers P g i) (hnew : Unmade g i) : Agreement P (step P g i) := by
  have hoffered := Offered.mono (P := P) (step_advances P g i)
  cases i with
  | node side i =>
    have hservice : (Protocol.step P g (.node side i)).service = g.service := service_setNode ..
    have hqueue : ∀ e ∈ g.service.messageQueue,
        e ∈ (Protocol.step P g (.node side i)).service.messageQueue := fun e he => hservice ▸ he
    have hissued := Issued.mono (P := P) hqueue
    refine ⟨hservice ▸ h.service, ?_⟩
    intro side'
    refine App.Sourced.mono ?_ hissued hoffered
    simp only [Protocol.step, node_setNode]
    split
    next hside => subst hside; exact (h.sourced _).step (h.delivered hmarket hd)
    next => exact h.sourced side'
  | offerTaken side offerId =>
    have hservice : (Protocol.step P g (.offerTaken side offerId)).service = g.service :=
      service_setNode ..
    have hqueue : ∀ e ∈ g.service.messageQueue,
        e ∈ (Protocol.step P g (.offerTaken side offerId)).service.messageQueue :=
      fun e he => hservice ▸ he
    have hissued := Issued.mono (P := P) hqueue
    refine ⟨hservice ▸ h.service, ?_⟩
    intro side'
    refine App.Sourced.mono ?_ hissued hoffered
    simp only [Protocol.step, node_setNode]
    split
    next hside =>
      subst hside
      obtain ⟨book, hbook, hvalues⟩ := processOfferTaken_book (g.node side') offerId
      have hs := h.sourced side'
      rw [hbook]
      exact ⟨hs.market, fun e he => hs.listed e (hvalues e he),
        hs.traced.quiet (RaidexNode.book_quiet _ book), hs.queued⟩
    next => exact h.sourced side'
  | service i =>
    obtain ⟨s', err, hserved, hrun⟩ := CommitmentService.served h.service.registry i
    have hservice : (Protocol.step P g (.service i)).service = s' := by
      simp only [Protocol.step, CommitmentService.serviceStep, hrun, EStateM.Result.state_of]
    have hqueue : ∀ e ∈ g.service.messageQueue,
        e ∈ (Protocol.step P g (.service i)).service.messageQueue :=
      fun e he => hservice ▸ hserved.messageQueue_subset he
    have hissued := Issued.mono (P := P) hqueue
    refine ⟨hservice ▸ h.service.served hserved hnew, ?_⟩
    intro side
    refine App.Sourced.mono ?_ hissued hoffered
    cases side with
    | maker => exact h.sourced .maker
    | taker => exact h.sourced .taker

/-- A proof of the service has the secret of a swap with a deposit of the node it was sent to. -/
theorem Agreement.deposited (h : Agreement P g) {a : Address} {offerId : Nat} {p : CommitmentProof}
    (hp : Issued P g a offerId p) : ∃ x ∈ g.service.objects, x.offerId = offerId ∧
      p.secret = x.secret ∧ p.secretHash = x.secretHash ∧ x.DepositOf a := by
  obtain ⟨side, rfl, hp, rfl⟩ := hp
  obtain ⟨⟨msg, topic⟩, hq, he⟩ := List.mem_filterMap.mp hp
  cases msg with
  | commitmentProof q =>
    simp only at he
    split at he
    next htopic =>
      cases he
      subst htopic
      obtain ⟨x, hx, hid, hsecret, hhash, hdeposit⟩ := h.service.deposited hq
      exact ⟨x, hx, hid, hsecret, hhash, hdeposit⟩
    · cases he
  | _ => cases he

end

/-- In every run in which what goes from party to party was sent and no offer gets a second swap,
each transfer that a node makes for a match has the secret of the one swap of its offer, and this
swap has accepted a deposit of the node and one of the node that is paid. That node has an offer
of this id, and what a taker takes are the terms of this offer. -/
theorem payments_agree (P : Parties) (hmarket : P.market.baseToken ≠ P.market.quoteToken)
    (toChecksumAddress : Address → String) (is : List Input)
    (h : LTS.AllSteps (step P) (fun g i => Delivers P g i ∧ Unmade g i) P.init is) (side : Side)
    (m : RaidexNode.Match)
    (hm : Event.trader (.swapInit m) ∈ ((run P is).node side).node.events) :
    ∃ r o x side' o', m.offer = some r ∧ ((run P is).node side).node.offers[r]? = some o ∧
      (x ∈ (run P is).service.objects ∧
        ∀ y ∈ (run P is).service.objects, y.offerId = x.offerId → y = x) ∧
      m.initiateExchange toChecksumAddress o P.market =
        { tokenAddress := m.getTokenFromMarket toChecksumAddress o P.market
          targetAddress := P.address side', amount := m.getSendAmount o, identifier := x.offerId
          secret := x.secret, secretHash := x.secretHash } ∧
      x.DepositOf (P.address side) ∧ x.DepositOf (P.address side') ∧
      o' ∈ ((run P is).node side').node.offers ∧ o'.offerId = x.offerId ∧
      (m.traderRole = .taker → o'.toBasicOffer = o.toBasicOffer) := by
  have hinv : Agreement P (run P is) := LTS.run_invariant_of_guard (step P) _
    (fun _ g => Agreement P g) .init (fun _ _ _ hg hi => hg.step hmarket hi.1 hi.2) is h
  have htraced := (hinv.sourced side).traced
  obtain ⟨⟨r, o, hr, ho, hengaged⟩, offerId, hissued, b, ⟨side', haddress, o', ho', hb⟩, hbid,
    hoffer⟩ := htraced.paid m hm
  obtain ⟨o₁, ho₁, hoid, hterms⟩ := hoffer r hr
  cases ho.symm.trans ho₁
  obtain ⟨x, hx, hxid, hsecret, hhash, htheirs⟩ := hinv.deposited hissued
  -- the node has the proof of its own commitment, which is to the same offer
  have hproved : o.state.proved = true := by
    revert hengaged
    cases o.state <;> intro hengaged <;> first | rfl | cases hengaged
  obtain ⟨p, hp⟩ := (htraced.kept r o ho).proved hproved
  obtain ⟨hown, hpid⟩ := (htraced.kept r o ho).received p hp
  obtain ⟨y, hy, hyid, -, -, hours⟩ := hinv.deposited hown
  obtain rfl := hinv.service.unique hx hy (hyid.trans (hpid.trans (hoid.trans hxid.symm)))
  refine ⟨r, o, y, side', o', hr, ho, ⟨hy, fun z hz hid => hinv.service.unique hy hz hid⟩, ?_,
    hours, haddress ▸ htheirs, ho', ?_, ?_⟩
  · simp only [RaidexNode.Match.initiateExchange, RaidexNode.Match.getSecret,
      RaidexNode.Match.getSecretHash, haddress, hoid, hxid, hsecret, hhash]
  · exact (congrArg BasicOffer.offerId hb).trans (hbid.trans hxid.symm)
  · exact fun hrole => hb.trans (hterms hrole).symm

/-- The taker pays, with the secret `8` of the swap of the maker's offer. -/
theorem taker_payment_agrees : ∃ r o x side' o', takersMatch.offer = some r ∧
    ((run plainParties (makerOffers ++ takerCommits ++ takerPays)).node .taker).node.offers[r]? =
      some o ∧
    (x ∈ (run plainParties (makerOffers ++ takerCommits ++ takerPays)).service.objects ∧
      ∀ y ∈ (run plainParties (makerOffers ++ takerCommits ++ takerPays)).service.objects,
        y.offerId = x.offerId → y = x) ∧
    takersMatch.initiateExchange (fun a => toString a.toNat) o plainParties.market =
      { tokenAddress := takersMatch.getTokenFromMarket (fun a => toString a.toNat) o
          plainParties.market
        targetAddress := plainParties.address side', amount := takersMatch.getSendAmount o
        identifier := x.offerId, secret := x.secret, secretHash := x.secretHash } ∧
    x.DepositOf (plainParties.address .taker) ∧ x.DepositOf (plainParties.address side') ∧
    o' ∈ ((run plainParties (makerOffers ++ takerCommits ++ takerPays)).node side').node.offers ∧
    o'.offerId = x.offerId ∧
    (takersMatch.traderRole = .taker → o'.toBasicOffer = o.toBasicOffer) :=
  payments_agree plainParties (by decide) (fun a => toString a.toNat)
    (makerOffers ++ takerCommits ++ takerPays) (by decide +kernel) .taker takersMatch
    (by decide +kernel)

/-- The taker's commitment comes in after the swap was canceled, and makes a second swap. The taker
pays under the secret of the first. -/
def secondSwap : List Input :=
  makerOffers ++ takerCommits ++ makerGivesUp ++ makerCancels ++
    [.service { now := 0, event := .commitment 9 { offerId := 7, offerHash := 0, timeout := 60000
                                                   amount := 10 ^ 18, signature := some 4 } },
     depositing 4, .node .taker (.commitmentProof { commitmentProved 4 with secret := 9 }),
     handling .taker 0]

theorem second_swap_second_secret :
    LTS.AllSteps (step plainParties) (Delivers plainParties) plainParties.init secondSwap ∧
      Event.trader (.swapInit takersMatch) ∈ (run plainParties secondSwap).taker.node.events ∧
      takersMatch.getSecret = 8 ∧
      (run plainParties secondSwap).service.objects.map (fun x => (x.offerId, x.secret)) =
        [(7, 8), (7, 9)] := by
  decide +kernel

end Protocol
end Raidex
