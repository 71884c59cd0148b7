import Raidex.RaidexNode.Payments

/-!
# Raidex.RaidexNode.Withdrawal

How the offers of a node are withdrawn, and what is paid for those that are not.

* `Effect.offers_cases`: where an offer comes from that a handler leaves behind.
* `requested_handled`, `canceled_handled`: an offer asks for its cancellation when it is timed
  out, and is canceled on a proof.
* `Paid`: the exchange of every engaged offer was started.
* `taker_paid_handled`: as a taker, the node pays when the commitment to the offer is proved.
-/

namespace Raidex
namespace RaidexNode

open EStateM (Proceeds)

/-- The offer that a state change times out. -/
def Node.timedOut (s : Node) : StateChange → Option OfferRef
  | .offerTimeout offerId _ => s.getOffer offerId
  | .cancelLimitOrder orderId =>
    (s.orders.lookup orderId).bind fun order =>
      (s.openOffers order.correspondingOffers).toOption.bind List.head?
  | _ => none

variable {fresh : Prop} {sc : StateChange} {s s' : Node} {r : OfferRef} {o o' : Offer} {env : Env}

/-! ## Offers -/

/-- An offer is as it was, or new, or proved, exchanging or completed, or has taken a trigger. -/
theorem Effect.offers_cases (h : Effect fresh sc s s') (ho' : s'.offers[r]? = some o') :
    s.offers[r]? = some o' ∨
    o'.state ∈ [OfferState.openCreated, .openProved, .pendingExchanging, .completed] ∨
    ∃ o t k d, s.offers[r]? = some o ∧ t.dest o.state = some d ∧ o' = o.enter d k ∧
      Fires sc s r o t k := by
  cases h with
  | quiet h => exact .inl (h.offers ▸ ho')
  | created data b role _ =>
    rcases created_cases ho' with ho' | ⟨-, rfl⟩
    · exact .inl ho'
    · exact .inr (.inl (by simp [Offer.new]))
  | taken data e _ =>
    have ho' : (s.created e.takeOffer .taker).offers[r]? = some o' := ho'
    rcases created_cases ho' with ho' | ⟨-, rfl⟩
    · exact .inl ho'
    · exact .inr (.inl (by simp [Offer.new]))
  | entered ho hmodel hd hfires =>
    rcases entered_cases ho' with ⟨rfl, rfl⟩ | ⟨-, ho'⟩
    · exact .inr (.inr ⟨_, _, _, _, ho, hd, rfl, hfires⟩)
    · exact .inl ho'
  | provedMatched p hr ho hmodel hstate hm hr' ho'' hmodel' hd =>
    rcases entered_cases ho' with ⟨rfl, rfl⟩ | ⟨-, ho'⟩
    · exact .inr (.inl (by simp [Offer.enter]))
    rcases entered_cases ho' with ⟨rfl, rfl⟩ | ⟨-, ho'⟩
    · exact .inr (.inl (by simp [Offer.enter]))
    · exact .inl ho'
  | called offerId initiator p hr ho hmodel hd =>
    rcases entered_cases ho' with ⟨rfl, rfl⟩ | ⟨-, ho'⟩
    · exact .inr (.inl (by simp [Offer.enter]))
    · exact .inl ho'
  | completed e hm hr ho hmodel hstate hr' =>
    rcases entered_cases ho' with ⟨rfl, rfl⟩ | ⟨-, ho'⟩
    · exact .inr (.inl (by simp [Offer.enter]))
    · exact .inl ho'

theorem Broken.offers_cases (h : Broken sc s s') (ho' : s'.offers[r]? = some o') :
    s.offers[r]? = some o' ∨ o'.state ∈ [OfferState.openProved, .completed] := by
  cases h with
  | unmatched p hr ho hmodel hstate hm =>
    rcases entered_cases ho' with ⟨rfl, rfl⟩ | ⟨-, ho'⟩
    · exact .inr (by simp [Offer.enter])
    · exact .inl ho'
  | called offerId initiator p => exact .inl ho'
  | unremoved e hm hr ho hmodel hstate =>
    rcases entered_cases ho' with ⟨rfl, rfl⟩ | ⟨-, ho'⟩
    · exact .inr (by simp [Offer.enter])
    · exact .inl ho'

theorem canceled_dest {t : OfferTrigger} {st : OfferState} (h : t.dest st = some .canceled) :
    t = .receiveCancellationProof := by
  cases t <;> cases st <;> cases h <;> rfl

theorem requested_dest {t : OfferTrigger} {st : OfferState}
    (h : t.dest st = some .openCancellationRequested) : t = .timeout := by
  cases t <;> cases st <;> cases h <;> rfl

/-! ## Timeouts -/

/-- The handler has timed out the offer at `r`, which was open. -/
structure TimesOut (s : Node) (r : OfferRef) (o : Offer) (sc : StateChange) : Prop where
  timedOut : s.timedOut sc = some r
  offer : s.offers[r]? = some o
  isModel : o.isModel = true
  status : o.state.status = .open_

/-- What firing `timeout` does to the offers. -/
theorem callOffer_timeout_offers (r : OfferRef) (s : Node) :
    ((callOffer r .timeout {}).run s).state.offers = s.offers ∨
    ∃ o, s.offers[r]? = some o ∧ o.isModel = true ∧ o.state.status = .open_ ∧
      ((callOffer r .timeout {}).run s).state.offers =
        s.offers.set r (o.enter .openCancellationRequested {}) := by
  by_cases hfire : s.CanFire r .timeout
  · obtain ⟨o, ho, hmodel, d, hd⟩ := hfire
    obtain ⟨hstatus, rfl⟩ : o.state.status = .open_ ∧ .openCancellationRequested = d := by
      simpa [OfferTrigger.dest] using hd
    exact .inr ⟨o, ho, hmodel, hstatus, by rw [callOffer_ok ho hmodel hd nofun]; rfl⟩
  · obtain ⟨err, hrun⟩ := callOffer_error (k := {}) hfire
    exact .inl (by rw [hrun]; rfl)

/-- The offers after a timeout: as before, or with the timed out one asking for its
cancellation. -/
def TimeoutOffers (s : Node) (sc : StateChange) (offers : List Offer) : Prop :=
  offers = s.offers ∨ ∃ r o, TimesOut s r o sc ∧
    offers = s.offers.set r (o.enter .openCancellationRequested {})

theorem handleOfferTimeout_offers (offerId date : Nat) :
    TimeoutOffers s (.offerTimeout offerId date)
      ((handleOfferTimeout offerId).run s).state.offers := by
  have hclean {x : NodeM Unit} : (EStateM.run (x >>= fun _ =>
      modify fun s => s.cleanUpTimeout offerId : NodeM Unit) s).state.offers =
      (x.run s).state.offers :=
    EStateM.state_bind (P := fun t : Node => t.offers = (x.run s).state.offers) rfl fun _ _ _ h => h
  unfold handleOfferTimeout
  rw [EStateM.run_bind, EStateM.run_get]
  simp only
  split
  · rw [hclean]
    cases hr : s.getOffer offerId with
    | none => exact .inl rfl
    | some r =>
      rcases callOffer_timeout_offers r s with h | ⟨o, ho, hmodel, hstatus, h⟩
      · exact .inl h
      · exact .inr ⟨r, o, ⟨hr, ho, hmodel, hstatus⟩, h⟩
  split
  next hbook =>
    rw [hclean]
    obtain ⟨book, hrun, -⟩ := removeFromBook_ok hbook
    exact .inl (by rw [hrun]; rfl)
  · exact .inl rfl

/-- Only the first open offer of a canceled order is timed out. -/
theorem handleCancelLimitOrder_offers (orderId : Nat) :
    TimeoutOffers s (.cancelLimitOrder orderId)
      ((handleCancelLimitOrder orderId).run s).state.offers := by
  unfold handleCancelLimitOrder cancelOrder
  rw [EStateM.run_bind, EStateM.run_get]
  simp only
  split
  · exact .inl rfl
  next order horder =>
    cases hopen : s.openOffers order.correspondingOffers with
    | error err => exact .inl rfl
    | ok rs =>
      rw [EStateM.run_seq_ok (EStateM.run_ofExcept_ok rs s)]
      cases rs with
      | nil => exact .inl rfl
      | cons r rs =>
        have htimed : s.timedOut (.cancelLimitOrder orderId) = some r := by
          rw [Node.timedOut, horder, Option.bind_some, hopen]
          rfl
        have hstate : ((timeoutOffers (r :: rs)).run s).state.offers =
            ((callOffer r .timeout {}).run s).state.offers := by
          exact EStateM.state_bind
            (P := fun t : Node => t.offers = ((callOffer r .timeout {}).run s).state.offers) rfl
            fun _ _ _ h => h
        rw [hstate]
        rcases callOffer_timeout_offers r s with h | ⟨o, ho, hmodel, hstatus, h⟩
        · exact .inl h
        · exact .inr ⟨r, o, ⟨htimed, ho, hmodel, hstatus⟩, h⟩

theorem TimeoutOffers.requested {offers : List Offer} (h : TimeoutOffers s sc offers)
    (ho' : offers[r]? = some o') : s.offers[r]? = some o' ∨ ∃ o, TimesOut s r o sc := by
  rcases h with rfl | ⟨r', o, htimed, rfl⟩
  · exact .inl ho'
  · rcases List.getElem?_set_cases ho' with ⟨rfl, -⟩ | ⟨-, ho'⟩
    · exact .inr ⟨o, htimed⟩
    · exact .inl ho'

/-- An offer that asks for its cancellation did so before, or is timed out now. -/
theorem requested_handled
    (ho' : ((handleStateChange env sc).run s).state.offers[r]? = some o')
    (hstate : o'.state = .openCancellationRequested) :
    s.offers[r]? = some o' ∨ ∃ o, TimesOut s r o sc := by
  by_cases hsc : (∃ offerId date, sc = .offerTimeout offerId date) ∨
      ∃ orderId, sc = .cancelLimitOrder orderId
  · rcases hsc with ⟨offerId, date, rfl⟩ | ⟨orderId, rfl⟩
    · exact (handleOfferTimeout_offers offerId date).requested ho'
    · exact (handleCancelLimitOrder_offers orderId).requested ho'
  left
  have hproceeds := handled_proceeds env sc s
  let P (s₁ : Node) : Prop := ∀ (r : OfferRef) (o' : Offer), s₁.offers[r]? = some o' →
    o'.state = .openCancellationRequested → s.offers[r]? = some o'
  refine hproceeds.invariant (P := P) (Q := P) (fun _ _ ho _ => ho) ?_ ?_ (fun _ h => h) r o' ho'
    hstate
  · intro s₁ s₂ heff hP r o' ho' hstate
    rcases heff.offers_cases ho' with ho' | hother | ⟨o, t, k, d, ho, hd, rfl, hfires⟩
    · exact hP r o' ho' hstate
    · rw [hstate] at hother; exact absurd hother (by decide)
    · obtain rfl : d = .openCancellationRequested := hstate
      obtain rfl := requested_dest hd
      cases hfires with
      | timeout offerId date _ => exact absurd (.inl ⟨offerId, date, rfl⟩) hsc
      | canceled orderId order _ _ => exact absurd (.inr ⟨orderId, rfl⟩) hsc
  · intro s₁ s₂ hbroken hP r o' ho' hstate
    rcases hbroken.offers_cases ho' with ho' | hother
    · exact hP r o' ho' hstate
    · rw [hstate] at hother; exact absurd hother (by decide)

/-- An offer that is canceled was so before, or a proof of its cancellation is handled now. -/
theorem canceled_handled (hs : Managed s)
    (ho' : ((handleStateChange env sc).run s).state.offers[r]? = some o')
    (hstate : o'.state = .canceled) :
    s.offers[r]? = some o' ∨ ∃ p, sc = .cancellationProof p ∧ p.offerId = o'.offerId := by
  have hproceeds := handled_proceeds env sc s
  let Q (s₁ : Node) : Prop := ∀ (r : OfferRef) (o' : Offer), s₁.offers[r]? = some o' →
    o'.state = .canceled →
    s.offers[r]? = some o' ∨ ∃ p, sc = .cancellationProof p ∧ p.offerId = o'.offerId
  refine hproceeds.invariant (P := fun s₁ => Managed s₁ ∧ Q s₁) (Q := Q)
    ⟨hs, fun _ _ ho _ => .inl ho⟩ ?_ ?_ (fun _ h => h.2) r o' ho' hstate
  · rintro s₁ s₂ heff ⟨hmanaged, hQ⟩
    refine ⟨hmanaged.effect heff, ?_⟩
    intro r o' ho' hstate
    rcases heff.offers_cases ho' with ho' | hother | ⟨o, t, k, d, ho, hd, rfl, hfires⟩
    · exact hQ r o' ho' hstate
    · rw [hstate] at hother; exact absurd hother (by decide)
    · obtain rfl : d = .canceled := hstate
      obtain rfl := canceled_dest hd
      cases hfires with
      | cancellationProved p hr => exact .inr ⟨p, rfl, (hmanaged.offerId hr ho).symm⟩
  · rintro s₁ s₂ hbroken ⟨-, hQ⟩ r o' ho' hstate
    rcases hbroken.offers_cases ho' with ho' | hother
    · exact hQ r o' ho' hstate
    · rw [hstate] at hother; exact absurd hother (by decide)

/-! ## States -/

/-- Not one of the states that only stand for their children. -/
def OfferState.isLeaf (s : OfferState) : Bool := s ≠ .open_ && s ≠ .pending

/-- Some triggers take an offer from this state to the exchange. -/
def OfferState.Exchangeable (s : OfferState) : Prop :=
  ∃ ts : List OfferTrigger, ts.foldlM (fun s t => t.dest s) s = some .pendingExchanging

/-- An offer that is not withdrawn can be exchanged or has been. -/
theorem OfferState.exchangeable {st : OfferState} (hleaf : st.isLeaf = true)
    (hrequested : st ≠ .openCancellationRequested) (hcanceled : st ≠ .canceled)
    (hengaged : st.engaged = false) : st.Exchangeable := by
  cases st with
  | open_ | pending => cases hleaf
  | openCreated => exact ⟨[.initiating, .receiveCommitmentProof, .foundMatch], rfl⟩
  | openUnproved => exact ⟨[.receiveCommitmentProof, .foundMatch], rfl⟩
  | openProved | openPublished => exact ⟨[.foundMatch], rfl⟩
  | openCancellationRequested => exact absurd rfl hrequested
  | canceled => exact absurd rfl hcanceled
  | pendingExchanging | pendingWaitForRefund | completed => cases hengaged

theorem isLeaf_dest {t : OfferTrigger} {st d : OfferState} (h : t.dest st = some d) :
    d.isLeaf = true := by
  cases t <;> cases st <;> cases h <;> rfl

/-- The offers of a node are in states of their own. -/
def InLeaves (s : Node) : Prop := ∀ (r : OfferRef) (o : Offer), s.offers[r]? = some o →
  o.state.isLeaf = true

theorem InLeaves.effect (hs : InLeaves s) (h : Effect fresh sc s s') : InLeaves s' := by
  intro r o' ho'
  rcases h.offers_cases ho' with ho' | hother | ⟨o, t, k, d, ho, hd, rfl, -⟩
  · exact hs r o' ho'
  · revert hother
    cases o'.state <;> decide
  · exact isLeaf_dest hd

theorem InLeaves.broken (hs : InLeaves s) (h : Broken sc s s') : InLeaves s' := by
  intro r o' ho'
  rcases h.offers_cases ho' with ho' | hother
  · exact hs r o' ho'
  · revert hother
    cases o'.state <;> decide

/-! ## Payments -/

/-- For every engaged offer the exchange of a match was started. -/
def Paid (s : Node) : Prop :=
  ∀ (r : OfferRef) (o : Offer), s.offers[r]? = some o → o.state.engaged = true →
    ∃ m, m.offer = some r ∧ Event.trader (.swapInit m) ∈ s.events

namespace Paid

theorem init (market : TokenPair) : Paid (.init market) := by simp [Paid, Node.init]

theorem of_eq (hs : Paid s) (hoffers : s'.offers = s.offers) (hevents : s.events ⊆ s'.events) :
    Paid s' := by
  intro r o ho he
  obtain ⟨m, hr, hm⟩ := hs r o (hoffers ▸ ho) he
  exact ⟨m, hr, hevents hm⟩

theorem created (hs : Paid s) (b : BasicOffer Number) (role : TraderRole) :
    Paid (s.created b role) := by
  intro r o ho he
  rcases created_cases ho with ho | ⟨-, rfl⟩
  · exact hs r o ho he
  · cases he

/-- An offer that is not engaged enters a state in which it is not, or it is engaged already. -/
theorem entered {d : OfferState} {k : OfferKwargs} (hs : Paid s)
    (ho : s.offers[r]? = some o) (he : d.engaged = true → o.state.engaged = true) :
    Paid (s.entered r o d k) := by
  intro r' o' ho' hengaged
  have hold : ∃ m, m.offer = some r' ∧ Event.trader (.swapInit m) ∈ s.events := by
    rcases entered_cases ho' with ⟨rfl, rfl⟩ | ⟨-, ho'⟩
    · exact hs _ o ho (he hengaged)
    · exact hs r' o' ho' hengaged
  obtain ⟨m, hr, hm⟩ := hold
  exact ⟨m, hr, List.mem_append_left _ hm⟩

theorem exchanging (hs : Paid s) {m : Match} (hr : m.offer = some r) :
    Paid (s.exchanging m r o) := by
  intro r' o' ho' he
  rcases entered_cases ho' with ⟨rfl, -⟩ | ⟨-, ho'⟩
  · exact ⟨m, hr, by simp [Node.exchanging]⟩
  · obtain ⟨m', hr', hm'⟩ := hs r' o' ho' he
    exact ⟨m', hr', by simp [Node.exchanging, Node.entered, hm']⟩

theorem effect (hs : Paid s) (h : Effect fresh sc s s') : Paid s' := by
  cases h with
  | quiet h =>
    obtain ⟨es, hes, -⟩ := h.events
    exact hs.of_eq h.offers fun e he => hes ▸ List.mem_append_left _ he
  | created data b role _ => exact hs.created b role
  | taken data e _ => exact (hs.created e.takeOffer .taker).of_eq rfl fun e he => he
  | @entered _ _ r o t k d ho hmodel hd hfires =>
    refine hs.entered ho ?_
    intro he
    cases hfires with
    | inbound e m hm hr hstate => rw [hstate]; rfl
    | initiating | timeout | canceled | cancellationProved | published | proved =>
      revert hd; cases o.state <;> intro hd <;> cases hd <;> cases he
  | @provedMatched s r o m r' o' p hr ho hmodel hstate hm hr' ho' hmodel' hd =>
    have hproved : Paid (s.entered r o .openProved { proof := some p }) := hs.entered ho nofun
    exact hproved.exchanging hr'
  | called offerId initiator p hr ho hmodel hd =>
    exact Paid.exchanging (hs.of_eq rfl fun e he => he) rfl
  | completed e hm hr ho hmodel hstate hr' =>
    refine (hs.entered ho fun _ => ?_).of_eq rfl fun e he => he
    rw [hstate]; rfl

theorem broken (hs : Paid s) (h : Broken sc s s') : Paid s' := by
  cases h with
  | unmatched p hr ho hmodel hstate hm =>
    exact hs.entered ho nofun
  | called offerId initiator p => exact hs.of_eq rfl fun e he => he
  | unremoved e hm hr ho hmodel hstate =>
    refine (hs.entered ho fun _ => ?_).of_eq rfl fun e he => he
    rw [hstate]; rfl

end Paid

/-- As a taker, the node pays only for offers with such ids. -/
def TakerPays (Q : Nat → Prop) (s : Node) : Prop :=
  ∀ m, Event.trader (.swapInit m) ∈ s.events → m.traderRole = .taker →
    ∃ r o, m.offer = some r ∧ s.offers[r]? = some o ∧ Q o.offerId

namespace TakerPays

variable {Q : Nat → Prop}

theorem init (market : TokenPair) : TakerPays Q (.init market) := by simp [TakerPays, Node.init]

/-- Offers that advance keep their ids. -/
theorem of_advances (hs : TakerPays Q s) (hadv : s.Advances s')
    (hold : ∀ m, Event.trader (.swapInit m) ∈ s'.events → Event.trader (.swapInit m) ∈ s.events) :
    TakerPays Q s' := by
  intro m hm hrole
  obtain ⟨r, o, hr, ho, hQ⟩ := hs m (hold m hm) hrole
  obtain ⟨o', ho', hlater⟩ := hadv r o ho
  exact ⟨r, o', hr, ho', hlater.offerId ▸ hQ⟩

theorem quiet (hs : TakerPays Q s) (h : Quiet s s') : TakerPays Q s' := by
  obtain ⟨es, hes, hquiet⟩ := h.events
  refine hs.of_advances (.of_eq h.offers) ?_
  intro m hm
  rw [hes, List.mem_append] at hm
  exact hm.resolve_right fun hm => by cases hquiet _ hm

theorem effect (hs : TakerPays Q s) {R : CommitmentProof → Prop} (hbacked : Backed R s)
    (hsc : ∀ p, sc = .commitmentProof p → Q p.offerId) (h : Effect fresh sc s s') :
    TakerPays Q s' := by
  have hadv := h.advances
  cases h with
  | quiet h => exact hs.quiet h
  | created | taken => exact hs.of_advances hadv fun m hm => hm
  | entered | completed =>
    exact hs.of_advances hadv fun m hm => (List.mem_append.mp hm).resolve_right not_mem_entryEvents
  | @provedMatched s r o m r' o' p hr ho hmodel hstate hlookup hr' ho' hmodel' hd =>
    intro m' hm' hrole
    rcases swapInit_exchanging hm' with hm' | rfl
    · have hold := (List.mem_append.mp hm').resolve_right not_mem_entryEvents
      obtain ⟨r₁, o₁, hr₁, ho₁, hQ⟩ := hs m' hold hrole
      obtain ⟨o₂, ho₂, hlater⟩ := hadv r₁ o₁ ho₁
      exact ⟨r₁, o₂, hr₁, ho₂, hlater.offerId ▸ hQ⟩
    · -- the match is kept under the id of the offer that is proved
      obtain ⟨r₁, o₁, hr₁, ho₁, hid, -⟩ := hbacked.matched _ _ hlookup
      cases hr'.symm.trans hr₁
      obtain ⟨o₂, ho₂, hlater⟩ := hadv r' o₁ ho₁
      refine ⟨r', o₂, hr', ho₂, ?_⟩
      rw [hlater.offerId, hid, hbacked.managed.offerId hr ho]
      exact hsc p rfl
  | called offerId initiator p hr ho hmodel hd =>
    intro m hm hrole
    rcases swapInit_exchanging hm with hm | rfl
    · obtain ⟨r₁, o₁, hr₁, ho₁, hQ⟩ := hs m hm hrole
      obtain ⟨o₂, ho₂, hlater⟩ := hadv r₁ o₁ ho₁
      exact ⟨r₁, o₂, hr₁, ho₂, hlater.offerId ▸ hQ⟩
    · cases hrole

theorem broken (hs : TakerPays Q s) (h : Broken sc s s') : TakerPays Q s' :=
  hs.of_advances h.advances fun _ hm => authorized_broken h hm

end TakerPays

/-! ## Steps of the node -/

section

variable {C : Crypto} {a : App} {i : App.Input}

theorem handled_advances (env : Env) (sc : StateChange) (s : Node) :
    s.Advances ((handleStateChange env sc).run s).state := by
  have hproceeds := handled_proceeds env sc s
  exact hproceeds.invariant (P := s.Advances) (.of_eq rfl) (fun _ _ heff h => h.trans heff.advances)
    (fun _ _ hbroken h => h.trans hbroken.advances) fun _ h => h

/-- An offer asks for its cancellation from the step on that times it out. -/
theorem requested_step (ho' : (a.step C i).node.offers[r]? = some o')
    (hstate : o'.state = .openCancellationRequested) :
    a.node.offers[r]? = some o' ∨ ∃ env sc o, i = .handle env ∧ a.running = true ∧
      a.stateChanges.head? = some sc ∧ TimesOut a.node r o sc ∧ o.Later o' := by
  rcases a.step_cases C i with ⟨hquiet, -⟩ | ⟨env, sc, rest, rfl, hrun, hq, hnode, -⟩
  · exact .inl (hquiet.offers ▸ ho')
  rw [hnode] at ho'
  refine (requested_handled ho' hstate).imp_right ?_
  rintro ⟨o, htimes⟩
  obtain ⟨o₁, ho₁, hlater⟩ := handled_advances env sc a.node r o htimes.offer
  cases ho'.symm.trans ho₁
  exact ⟨env, sc, o, rfl, hrun, by rw [hq]; rfl, htimes, hlater⟩

/-- An offer is canceled from the step on that handles the proof of its cancellation. -/
theorem canceled_step (hs : Managed a.node) (ho' : (a.step C i).node.offers[r]? = some o')
    (hstate : o'.state = .canceled) : a.node.offers[r]? = some o' ∨
      ∃ p, StateChange.cancellationProof p ∈ a.stateChanges ∧ p.offerId = o'.offerId := by
  rcases a.step_cases C i with ⟨hquiet, -⟩ | ⟨env, sc, rest, rfl, hrun, hq, hnode, -⟩
  · exact .inl (hquiet.offers ▸ ho')
  rw [hnode] at ho'
  refine (canceled_handled hs ho' hstate).imp_right ?_
  rintro ⟨p, rfl, hid⟩
  exact ⟨p, hq ▸ List.mem_cons_self .., hid⟩

/-- What effects keep, and handlers that raise too, every step keeps. -/
theorem step_keeps {P : Node → Prop} (hs : P a.node)
    (heffect : ∀ sc {s s'}, P s → Effect False sc s s' → P s')
    (hbroken : ∀ sc {s s'}, P s → Broken sc s s' → P s') : P (a.step C i).node := by
  rcases a.step_cases C i with ⟨hquiet, -⟩ | ⟨env, sc, rest, rfl, hrun, hq, hnode, -⟩
  · exact heffect (.channelStatus a.node.channels) hs (.quiet hquiet)
  rw [hnode]
  have hproceeds := handled_proceeds env sc a.node
  exact hproceeds.invariant hs (fun _ _ heff h => heffect sc h heff)
    (fun _ _ hbroke h => hbroken sc h hbroke) fun _ h => h

theorem Managed.step (hs : Managed a.node) : Managed (a.step C i).node :=
  step_keeps hs (fun _ => Managed.effect) fun _ => Managed.broken

theorem InLeaves.step (hs : InLeaves a.node) : InLeaves (a.step C i).node :=
  step_keeps hs (fun _ => InLeaves.effect) fun _ => InLeaves.broken

theorem Paid.step (hs : Paid a.node) : Paid (a.step C i).node :=
  step_keeps hs (fun _ => Paid.effect) fun _ => Paid.broken

/-- A running node keeps each match under the id of its offer; of the proofs nothing is known. -/
def Kept (a : App) : Prop := a.running = true → Backed (fun _ => True) a.node

theorem Kept.step (hs : Kept a) : Kept (a.step C i) := by
  intro hrun'
  rcases a.step_cases C i with ⟨hquiet, hrun⟩ | ⟨env, sc, rest, rfl, hrun, hq, hnode, hret⟩
  · exact (hs (hrun ▸ hrun')).of_eq hquiet.offers hquiet.offerManager hquiet.matchesById
  rw [hnode]
  have hproceeds := handled_proceeds env sc a.node
  exact hproceeds.keeps (hs hrun) (fun _ _ heff h => h.effect (fun _ _ => trivial) heff)
    (hret ▸ hrun')

/-- As a taker, the node pays on proofs of the commitments to its offers. -/
theorem TakerPays.step {Q : Nat → Prop} (hs : TakerPays Q a.node) (hkept : Kept a)
    (hqueued : ∀ p, StateChange.commitmentProof p ∈ a.stateChanges → Q p.offerId) :
    TakerPays Q (a.step C i).node := by
  rcases a.step_cases C i with ⟨hquiet, -⟩ | ⟨env, sc, rest, rfl, hrun, hq, hnode, -⟩
  · exact hs.quiet hquiet
  rw [hnode]
  have hsc (p : CommitmentProof) (hp : sc = .commitmentProof p) : Q p.offerId :=
    hqueued p (by rw [hq, hp]; exact List.mem_cons_self ..)
  have hproceeds := handled_proceeds env sc a.node
  refine hproceeds.invariant (P := fun s => Backed (fun _ => True) s ∧ TakerPays Q s)
    ⟨hkept hrun, hs⟩ ?_ (fun _ _ hbroken h => h.2.broken hbroken) fun _ h => h.2
  rintro s₁ s₂ heff ⟨hbacked, hpays⟩
  exact ⟨hbacked.effect (fun _ _ => trivial) heff, hpays.effect hbacked hsc heff⟩

end

end RaidexNode
end Raidex
