import Raidex.RaidexNode.Orders

/-!
# Raidex.RaidexNode.Handling

What each handler does: `handleStateChange_proceeds` says that it proceeds by effects, and that
only a handler that raises leaves a broken state behind.
-/

namespace Raidex
namespace RaidexNode

open EStateM (Proceeds)
open Relation (ReflTransGen)

section

variable {fresh : Prop} {sc : StateChange} {s : Node} {r : OfferRef} {t : OfferTrigger}
  {k : OfferKwargs}

theorem callOffer_proceeds (hkwargs : t = .receivedInbound → k.raidenEvent.isSome)
    (h : ∀ o, s.offers[r]? = some o → Fires sc s r o t k) :
    Proceeds (Effect fresh sc) (Broken sc) (callOffer r t k) s := by
  by_cases hfire : s.CanFire r t
  · obtain ⟨o, ho, hmodel, d, hd⟩ := hfire
    exact EStateM.proceeds_ok (callOffer_ok ho hmodel hd hkwargs)
      (.single (.entered ho hmodel hd (h o ho)))
  · obtain ⟨err, hrun⟩ := callOffer_error (k := k) hfire
    exact EStateM.proceeds_error hrun .refl

theorem callOffer?_proceeds {offer : Option OfferRef}
    (hkwargs : t = .receivedInbound → k.raidenEvent.isSome)
    (h : ∀ r o, offer = some r → s.offers[r]? = some o → Fires sc s r o t k) :
    Proceeds (Effect fresh sc) (Broken sc) (callOffer? offer t k) s := by
  cases offer with
  | none => exact EStateM.proceeds_error (t := s) rfl .refl
  | some r => exact callOffer_proceeds hkwargs fun o ho => h r o rfl ho

/-! ## Limit orders -/

theorem openOffers_cons {s : Node} {id : Nat} {r : OfferRef} {l : List (Nat × OfferRef)}
    {rs : List OfferRef} : s.openOffers ((id, r) :: l) = .ok rs ↔
      ∃ o others, s.offers[r]? = some o ∧ o.isModel = true ∧ s.openOffers l = .ok others ∧
        rs = if o.state.status = .open_ then r :: others else others := by
  rw [Node.openOffers]
  cases ho : s.offers[r]? with
  | none => exact ⟨nofun, by rintro ⟨o, others, ⟨⟩, -⟩⟩
  | some o =>
    cases hm : o.isModel with
    | false =>
      simp only [hm, Bool.false_eq_true, if_false]
      exact ⟨nofun, by rintro ⟨o', others, ⟨⟩, hm', -⟩; rw [hm] at hm'; cases hm'⟩
    | true =>
      simp only [hm, if_true]
      cases hl : s.openOffers l with
      | error err => exact ⟨nofun, by rintro ⟨o', others, -, -, ⟨⟩, -⟩⟩
      | ok others =>
        constructor
        · intro h; cases h; exact ⟨o, others, rfl, hm, rfl, rfl⟩
        · rintro ⟨o', others', ⟨⟩, -, ⟨⟩, rfl⟩; rfl

theorem openOffers_subset {s : Node} {l : List (Nat × OfferRef)} {rs : List OfferRef}
    (h : s.openOffers l = .ok rs) : ∀ r ∈ rs, r ∈ l.map Prod.snd := by
  induction l generalizing rs with
  | nil => cases h; exact fun _ h => h
  | cons x l ih =>
    obtain ⟨o, others, -, -, hl, rfl⟩ := openOffers_cons.mp h
    intro r' hr'
    rw [List.map_cons, List.mem_cons]
    split at hr'
    · exact (List.mem_cons.mp hr').imp_right (ih hl r')
    · exact .inr (ih hl r' hr')

/-- Only the first open offer of a canceled order is timed out. -/
theorem handleCancelLimitOrder_proceeds (orderId : Nat) :
    Proceeds (Effect fresh (.cancelLimitOrder orderId)) (Broken (.cancelLimitOrder orderId))
      (handleCancelLimitOrder orderId) s := by
  unfold handleCancelLimitOrder cancelOrder
  refine EStateM.proceeds_seq (EStateM.run_get s) .refl ?_
  split
  · exact EStateM.proceeds_error (t := s) rfl .refl
  next order horder =>
    cases hopen : s.openOffers order.correspondingOffers with
    | error err =>
      exact EStateM.proceeds_error (t := s) (EStateM.run_seq_error rfl) .refl
    | ok rs =>
      refine EStateM.proceeds_seq (EStateM.run_ofExcept_ok rs s) .refl ?_
      cases rs with
      | nil => exact EStateM.proceeds_ok (t := s) rfl .refl
      | cons r rs =>
        refine EStateM.proceeds_bind (callOffer_proceeds nofun fun o _ =>
          .canceled orderId order horder (openOffers_subset hopen r (List.mem_cons_self ..))) ?_
        intro _ s₁ _
        exact EStateM.proceeds_error (t := s₁) rfl .refl

/-! ## Timeouts and publications -/

theorem handleOfferTimeout_proceeds (offerId date : Nat) :
    Proceeds (Effect fresh (.offerTimeout offerId date)) (Broken (.offerTimeout offerId date))
      (handleOfferTimeout offerId) s := by
  unfold handleOfferTimeout
  refine EStateM.proceeds_seq (EStateM.run_get s) .refl ?_
  have hclean (s₁ : Node) : Proceeds (Effect fresh (.offerTimeout offerId date))
      (Broken (.offerTimeout offerId date))
      (modify fun s => s.cleanUpTimeout offerId : NodeM Unit) s₁ :=
    EStateM.proceeds_ok (t := s₁.cleanUpTimeout offerId) rfl (cleanUpTimeout_quiet _ _).single
  split
  · exact EStateM.proceeds_bind (callOffer?_proceeds nofun fun r o hr _ =>
      .timeout offerId date hr) fun _ s₁ _ => hclean s₁
  split
  next hbook =>
    obtain ⟨book, hrun, -⟩ := removeFromBook_ok hbook
    exact EStateM.proceeds_seq hrun (book_quiet _ _).single (hclean _)
  · exact hclean s

theorem handleOfferPublished_proceeds (env : Env) (e : OfferBookEntry) :
    Proceeds (Effect fresh (.offerPublished e)) (Broken (.offerPublished e))
      (handleOfferPublished env e) s := by
  unfold handleOfferPublished
  refine EStateM.proceeds_seq (EStateM.run_get s) .refl ?_
  split
  · exact callOffer?_proceeds nofun fun r o hr _ => .published e hr
  cases hprice : e.price with
  | error err =>
    rw [OfferBook.insertOffer_error hprice]
    exact EStateM.proceeds_error (t := s) (EStateM.run_seq_error rfl) .refl
  | ok p =>
    obtain ⟨book, hbook⟩ := OfferBook.insertOffer_ok (b := s.offerBook) hprice
    rw [hbook]
    refine EStateM.proceeds_seq (EStateM.run_ofExcept_ok book s) .refl ?_
    refine EStateM.proceeds_seq (a := ()) (t := { s with offerBook := book }) rfl
      (book_quiet s book).single ?_
    by_cases htime : { s with offerBook := book }.Startable e.offerId ∧
        e.offer.timeoutDate ≤ maxTimestamp
    · exact EStateM.proceeds_seq (createNewTimeout_ok env offerThresholdTime htime.1 htime.2)
        (startTimeout_quiet _ _ _ _).single (EStateM.proceeds_ok rfl .refl)
    · obtain ⟨err, s', hrun, hs'⟩ := createNewTimeout_error env offerThresholdTime
        htime
      refine EStateM.proceeds_error (EStateM.run_seq_error hrun) ?_
      rcases hs' with rfl | rfl
      · exact .refl
      · exact (cleanUpTimeout_quiet _ _).single

/-! ## Proofs, taker calls and payments -/

theorem foundMatch_dest {st d : OfferState} (h : OfferTrigger.foundMatch.dest st = some d) :
    d = .pendingExchanging := by
  cases st <;> cases h <;> rfl

theorem receiveCommitmentProof_dest {st d : OfferState}
    (h : OfferTrigger.receiveCommitmentProof.dest st = some d) :
    st = .openUnproved ∧ d = .openProved := by
  cases st <;> cases h; exact ⟨rfl, rfl⟩

/-- A match is made when its offer takes the trigger; otherwise nothing changes. -/
theorem matched_ok {m : Match} {o : Offer} (hm : m.offer = some r) (ho : s.offers[r]? = some o)
    (hmodel : o.isModel = true)
    (hd : OfferTrigger.foundMatch.dest o.state = some .pendingExchanging) :
    (matched m).run s = .ok () (s.exchanging m r o) := by
  unfold matched
  simp only [hm]
  rw [EStateM.run_seq_ok (callOffer_ok (k := {}) ho hmodel hd nofun)]
  have hr : r < s.offers.length := (List.getElem?_eq_some_iff.mp ho).1
  have hset : (s.entered r o .pendingExchanging {}).offers[r]? =
      some (o.enter .pendingExchanging {}) := List.getElem?_set_self hr
  rw [EStateM.run_seq_ok (readOffer_ok hset)]
  rfl

theorem matched_error {m : Match}
    (h : ¬ ∃ r, m.offer = some r ∧ s.CanFire r .foundMatch) :
    ∃ err, (matched m).run s = .error err s := by
  unfold matched
  cases hm : m.offer with
  | none => exact ⟨_, rfl⟩
  | some r =>
    obtain ⟨err, hrun⟩ := callOffer_error (k := {}) fun hfire => h ⟨r, hm, hfire⟩
    exact ⟨err, EStateM.run_seq_error hrun⟩

theorem handleCommitmentProof_proceeds (p : CommitmentProof) :
    Proceeds (Effect fresh (.commitmentProof p)) (Broken (.commitmentProof p))
      (handleCommitmentProof (s.getOffer p.offerId) p) s := by
  unfold handleCommitmentProof
  cases hr : s.getOffer p.offerId with
  | none => exact EStateM.proceeds_error (t := s) rfl .refl
  | some r =>
    by_cases hfire : s.CanFire r .receiveCommitmentProof
    swap
    · obtain ⟨err, hrun⟩ := callOffer_error (k := { proof := some p }) hfire
      exact EStateM.proceeds_error (EStateM.run_seq_error hrun) .refl
    obtain ⟨o, ho, hmodel, d, hd⟩ := hfire
    obtain ⟨hstate, rfl⟩ := receiveCommitmentProof_dest hd
    have hrun := callOffer_ok (k := { proof := some p }) ho hmodel hd nofun
    have hlt : r < s.offers.length := (List.getElem?_eq_some_iff.mp ho).1
    have hset : (s.entered r o .openProved { proof := some p }).offers[r]? =
        some (o.enter .openProved { proof := some p }) := List.getElem?_set_self hlt
    cases hm : s.matchesById.lookup o.offerId with
    | none =>
      refine EStateM.proceeds_seq hrun (.single (.entered ho hmodel hd (.proved p hr hm))) ?_
      refine EStateM.proceeds_seq (readOffer_ok hset) .refl ?_
      refine EStateM.proceeds_seq (EStateM.run_get _) .refl ?_
      have hm' : (s.entered r o .openProved { proof := some p }).matchesById.lookup
          (o.enter .openProved { proof := some p }).offerId = none := hm
      simp only [hm']
      exact EStateM.proceeds_ok rfl (dispatchEvents_quiet (by simp [Event.quiet])).single
    | some m =>
      have hm' : (s.entered r o .openProved { proof := some p }).matchesById.lookup
          (o.enter .openProved { proof := some p }).offerId = some m := hm
      by_cases hmatch : ∃ r', m.offer = some r' ∧
          (s.entered r o .openProved { proof := some p }).CanFire r' .foundMatch
      · obtain ⟨r', hr', o', ho', hmodel', d, hd'⟩ := hmatch
        obtain rfl := foundMatch_dest hd'
        -- nothing can fail between the proof and its match
        have hsteps : ReflTransGen (Effect fresh (.commitmentProof p)) s
            ((s.entered r o .openProved { proof := some p }).exchanging m r' o') :=
          .single (.provedMatched p hr ho hmodel hstate hm hr' ho' hmodel' hd')
        refine EStateM.proceeds_of_run_eq (y := dispatchEvents
          [.transport (.sendProvenOffer r (some m.target))]) ?_ hsteps
          (EStateM.proceeds_ok rfl (dispatchEvents_quiet (by simp [Event.quiet])).single)
        rw [EStateM.run_seq_ok hrun, EStateM.run_seq_ok (readOffer_ok hset),
          EStateM.run_seq_ok (EStateM.run_get _)]
        simp only [hm']
        exact EStateM.run_seq_ok (matched_ok hr' ho' hmodel' hd')
      · obtain ⟨err, herr⟩ := matched_error hmatch
        refine EStateM.proceeds_break (e := err) ?_ .refl (.unmatched p hr ho hmodel hstate hm)
        rw [EStateM.run_seq_ok hrun, EStateM.run_seq_ok (readOffer_ok hset),
          EStateM.run_seq_ok (EStateM.run_get _)]
        simp only [hm']
        exact EStateM.run_seq_error herr

theorem handleTakerCall_proceeds (offerId : Nat) (initiator : Address) (p : CommitmentProof) :
    Proceeds (Effect fresh (.takerCall offerId initiator p))
      (Broken (.takerCall offerId initiator p)) (handleTakerCall offerId initiator p) s := by
  have hrun : (handleTakerCall offerId initiator p).run s =
      (matched (makerMatch (s.getOffer offerId) initiator p)).run
        { s with matchesById :=
            s.matchesById.insert offerId (makerMatch (s.getOffer offerId) initiator p) } := rfl
  by_cases hmatch : ∃ r, (makerMatch (s.getOffer offerId) initiator p).offer = some r ∧
      { s with matchesById := s.matchesById.insert offerId
                 (makerMatch (s.getOffer offerId) initiator p) }.CanFire r .foundMatch
  · obtain ⟨r, hr, o, ho, hmodel, d, hd⟩ := hmatch
    obtain rfl := foundMatch_dest hd
    change s.getOffer offerId = some r at hr
    rw [hr] at hrun ho
    exact EStateM.proceeds_ok (hrun.trans (matched_ok rfl ho hmodel hd))
      (.single (.called offerId initiator p hr ho hmodel hd))
  · obtain ⟨err, herr⟩ := matched_error hmatch
    exact EStateM.proceeds_break (hrun.trans herr) .refl (.called offerId initiator p)

theorem handleTransferReceived_proceeds (e : PaymentReceivedEvent) :
    Proceeds (Effect fresh (.transferReceived e)) (Broken (.transferReceived e))
      (handleTransferReceived e) s := by
  unfold handleTransferReceived
  refine EStateM.proceeds_seq (EStateM.run_get s) .refl ?_
  cases hm : s.matchesById.lookup e.identifier with
  | none => exact EStateM.proceeds_error (t := s) rfl .refl
  | some m =>
    simp only
    unfold receivedInbound
    cases hr : m.offer with
    | none => exact EStateM.proceeds_error (t := s) rfl .refl
    | some r =>
      simp only
      by_cases hfire : s.CanFire r .receivedInbound
      swap
      · obtain ⟨err, hrun⟩ := callOffer_error (k := { raidenEvent := some e }) hfire
        exact EStateM.proceeds_error (EStateM.run_seq_error hrun) .refl
      obtain ⟨o, ho, hmodel, d, hd⟩ := hfire
      have hrun := callOffer_ok (k := { raidenEvent := some e }) ho hmodel hd fun _ => rfl
      have hlt : r < s.offers.length := (List.getElem?_eq_some_iff.mp ho).1
      have hset : (s.entered r o d { raidenEvent := some e }).offers[r]? =
          some (o.enter d { raidenEvent := some e }) := List.getElem?_set_self hlt
      have hcases : o.state = .pendingExchanging ∧ d = .pendingWaitForRefund ∨
          o.state = .pendingWaitForRefund ∧ d = .completed := by
        revert hd; cases o.state <;> intro hd <;> cases hd
        · exact .inl ⟨rfl, rfl⟩
        · exact .inr ⟨rfl, rfl⟩
      rcases hcases with ⟨hstate, rfl⟩ | ⟨hstate, rfl⟩
      · refine EStateM.proceeds_seq hrun
          (.single (.entered ho hmodel hd (.inbound e m hm hr hstate))) ?_
        exact EStateM.proceeds_seq (readOffer_ok hset) .refl (EStateM.proceeds_ok rfl .refl)
      · let s₁ := s.entered r o .completed { raidenEvent := some e }
        have hrest : EStateM.run (readOffer r >>= fun o' => if o'.state = .completed then do
              modify fun s => s.cleanUpTimeout e.identifier
              removeModel r o'
            else pure () : NodeM Unit) s₁ =
              (removeModel r o).run (s₁.cleanUpTimeout e.identifier) := by
          rw [EStateM.run_seq_ok (readOffer_ok hset)]
          rfl
        cases hfind : s₁.findModel r o with
        | some r' =>
          refine EStateM.proceeds_ok (a := ())
            (t := Node.cleanUpTimeout { s₁ with models := s₁.models.erase r' } e.identifier) ?_
            ((ReflTransGen.single (.completed e hm hr ho hmodel hstate hfind)).trans
              (cleanUpTimeout_quiet _ _).single)
          rw [EStateM.run_seq_ok hrun]
          have hfind' : (s₁.cleanUpTimeout e.identifier).findModel r o = some r' := hfind
          exact hrest.trans (removeModel_ok hfind')
        | none =>
          refine EStateM.proceeds_break (e := .valueError)
            (u := s₁.cleanUpTimeout e.identifier) ?_ .refl (.unremoved e hm hr ho hmodel hstate)
          rw [EStateM.run_seq_ok hrun]
          have hfind' : (s₁.cleanUpTimeout e.identifier).findModel r o = none := hfind
          exact hrest.trans (removeModel_error hfind')

/-! ## Any state change -/

/-- A limit order registers offer ids that the node does not know. -/
def FreshIds (env : Env) (s : Node) : StateChange → Prop
  | .newLimitOrder data => OrderFresh env s (.fromDict env data)
  | _ => True

instance (env : Env) (s : Node) (sc : StateChange) : Decidable (FreshIds env s sc) :=
  match sc with
  | .newLimitOrder _ => inferInstanceAs (Decidable (OrderFresh _ _ _))
  | .cancelLimitOrder _ | .offerTimeout .. | .commitmentProof _ | .cancellationProof _
  | .takerCall .. | .offerPublished _ | .transferReceived _ | .channelStatus _ | .makeChannel .. =>
    .isTrue trivial

theorem handleStateChange_proceeds {env : Env} (hf : fresh → FreshIds env s sc) :
    Proceeds (Effect fresh sc) (Broken sc) (handleStateChange env sc) s := by
  cases sc with
  | newLimitOrder data => exact processOrder_proceeds hf
  | cancelLimitOrder orderId => exact handleCancelLimitOrder_proceeds orderId
  | offerTimeout offerId date => exact handleOfferTimeout_proceeds offerId date
  | commitmentProof p =>
    exact EStateM.proceeds_seq (EStateM.run_get s) .refl (handleCommitmentProof_proceeds p)
  | cancellationProof p =>
    exact EStateM.proceeds_seq (EStateM.run_get s) .refl
      (callOffer?_proceeds nofun fun r o hr _ => .cancellationProved p hr)
  | takerCall offerId initiator p => exact handleTakerCall_proceeds offerId initiator p
  | offerPublished e => exact handleOfferPublished_proceeds env e
  | transferReceived e => exact handleTransferReceived_proceeds e
  | channelStatus raw =>
    refine EStateM.proceeds_ok (t :=
      { s with channels := raw, events := s.events ++ [.raidenListener .channelFilter] })
      rfl (Quiet.single ⟨rfl, rfl, rfl, rfl, _, rfl, by simp [Event.quiet]⟩)
  | makeChannel partner token deposit =>
    exact EStateM.proceeds_ok rfl (dispatchEvents_quiet (by simp [Event.quiet])).single

/-- Also where ids are registered twice. -/
theorem handled_proceeds (env : Env) (sc : StateChange) (s : Node) :
    Proceeds (Effect False sc) (Broken sc) (handleStateChange env sc) s :=
  handleStateChange_proceeds False.elim

end

end RaidexNode
end Raidex
