import Raidex.RaidexNode.Counts
import Raidex.RaidexNode.Dispatches

/-!
# Raidex.RaidexNode.Conversations

What a node says about one of its offers, from the commitment to the refund or the cancellation.

* `Conversation`: what may be said of an offer, by its state.
* `Talks`: what the node has said of each offer is such a conversation.
* `Initiated`: a node that goes on has committed to all its offers.
-/

namespace Raidex
namespace RaidexNode

/-! ## Conversations -/

def CommitmentServiceEvent.offer : CommitmentServiceEvent → OfferRef
  | .commit r | .commitmentProved r | .receivedInbound r _ | .cancellationRequest r => r

/-- The event is for the commitment service and about the offer at `r`, or it starts the exchange
of this offer. -/
def Event.about (r : OfferRef) : Event → Bool
  | .commitmentService e => e.offer = r
  | .trader (.swapInit m) => m.offer = some r
  | _ => false

def Node.said (s : Node) (r : OfferRef) : List Event := s.events.filter (Event.about r)

/-- The commitment, and the wait for a taker after the publication. -/
inductive Opening (r : OfferRef) : List Event → Prop where
  | committed : Opening r [.commitmentService (.commit r)]
  | published : Opening r [.commitmentService (.commit r), .commitmentService (.commitmentProved r)]

inductive Conversation (r : OfferRef) : OfferState → List Event → Prop where
  | created : Conversation r .openCreated []
  | committed {st : OfferState} (h : st = .openUnproved ∨ st = .openProved) :
      Conversation r st [.commitmentService (.commit r)]
  | published : Conversation r .openPublished
      [.commitmentService (.commit r), .commitmentService (.commitmentProved r)]
  | exchanging {es : List Event} {m : Match} (h : Opening r es) (hm : m.offer = some r) :
      Conversation r .pendingExchanging (es ++ [.trader (.swapInit m)])
  | executed {st : OfferState} {es : List Event} {m : Match} {e : PaymentReceivedEvent}
      (h : Opening r es) (hm : m.offer = some r) (hst : st.executed = true) :
      Conversation r st
        (es ++ [.trader (.swapInit m), .commitmentService (.receivedInbound r e)])
  | withdrawn {st : OfferState} {es : List Event} {n : Nat} (h : Opening r es)
      (hst : st = .openCancellationRequested ∨ st = .canceled) :
      Conversation r st
        (es ++ List.replicate n (.commitmentService (.cancellationRequest r)))

namespace Conversation

variable {r : OfferRef} {st d : OfferState} {t : OfferTrigger} {k : OfferKwargs} {es : List Event}
  {m : Match}

/-- What is said before a match, and not after a request to cancel. -/
theorem opening (h : Conversation r st es)
    (hst : st = .openUnproved ∨ st = .openProved ∨ st = .openPublished) : Opening r es := by
  cases h with
  | created => simp at hst
  | committed => exact .committed
  | published => exact .published
  | exchanging => simp at hst
  | executed _ _ hex => rcases hst with rfl | rfl | rfl <;> cases hex
  | withdrawn _ hw => rcases hst with rfl | rfl | rfl <;> simp at hw

theorem exchange (h : Conversation r st es) (hm : m.offer = some r)
    (hd : OfferTrigger.foundMatch.dest st = some .pendingExchanging) :
    Conversation r .pendingExchanging (es ++ [.trader (.swapInit m)]) := by
  refine .exchanging (h.opening ?_) hm
  cases st <;> first | cases hd; done | simp

/-- A withdrawn offer may be withdrawn again. -/
theorem withdraw (h : Conversation r st es) (hst : st.status = .open_) (hne : st ≠ .openCreated)
    (n : Nat) (hd : d = .openCancellationRequested ∨ d = .canceled) :
    Conversation r d
      (es ++ List.replicate n (.commitmentService (.cancellationRequest r))) := by
  cases h with
  | created => exact absurd rfl hne
  | committed => exact .withdrawn .committed hd
  | published => exact .withdrawn .published hd
  | exchanging => cases hst
  | @executed st _ _ _ _ _ hex => cases st <;> first | cases hex; done | cases hst
  | withdrawn h _ =>
    rw [List.append_assoc, List.replicate_append_replicate]
    exact .withdrawn h hd

/-- A trigger other than for a match. -/
theorem enter (h : Conversation r st es) (hd : t.dest st = some d) (hfailed : t ≠ .paymentFailed)
    (hmatch : t ≠ .foundMatch) (hnew : st = .openCreated → t = .initiating)
    (hkwargs : t = .receivedInbound → k.raidenEvent.isSome) :
    Conversation r d (es ++ entryEvents r d k) := by
  cases t with
  | paymentFailed => exact absurd rfl hfailed
  | foundMatch => exact absurd rfl hmatch
  | initiating =>
    cases st <;> cases hd
    cases h with
    | created => exact .committed (.inl rfl)
    | committed h => simp at h
    | executed _ _ hex => cases hex
    | withdrawn _ hw => simp at hw
  | timeout =>
    have hopen : st.status = .open_ ∧ d = .openCancellationRequested := by
      cases st <;> cases hd <;> exact ⟨rfl, rfl⟩
    obtain ⟨hst, rfl⟩ := hopen
    exact h.withdraw hst (fun h => by cases hnew h) 1 (.inl rfl)
  | receiveCancellationProof =>
    have hopen : st.status = .open_ ∧ d = .canceled := by
      cases st <;> cases hd <;> exact ⟨rfl, rfl⟩
    obtain ⟨hst, rfl⟩ := hopen
    exact h.withdraw hst (fun h => by cases hnew h) 0 (.inr rfl)
  | receiveCommitmentProof =>
    cases st <;> cases hd
    have hnone : entryEvents r .openProved k = [] := rfl
    rw [hnone, List.append_nil]
    cases h with
    | committed => exact .committed (.inr rfl)
    | executed _ _ hex => cases hex
    | withdrawn _ hw => simp at hw
  | receivedOffer =>
    cases st <;> cases hd
    cases h with
    | committed => exact .published
    | executed _ _ hex => cases hex
    | withdrawn _ hw => simp at hw
  | receivedInbound =>
    obtain ⟨e, he⟩ := Option.isSome_iff_exists.mp (hkwargs rfl)
    cases st <;> cases hd
    · rw [entryEvents, he]
      cases h with
      | committed h => simp at h
      | exchanging h hm =>
        rw [List.append_assoc]
        exact .executed h hm rfl
      | executed _ _ hex => cases hex
      | withdrawn _ hw => simp at hw
    · have hnone : entryEvents r .completed k = [] := rfl
      rw [hnone, List.append_nil]
      cases h with
      | committed h => simp at h
      | executed h hm _ => exact .executed h hm rfl
      | withdrawn _ hw => simp at hw

end Conversation

/-! ## What a node has said -/

structure Talks (s : Node) : Prop where
  known : ∀ (r : OfferRef) o, s.offers[r]? = some o → Conversation r o.state (s.said r)
  unknown : ∀ r : OfferRef, s.offers[r]? = none → s.said r = []

/-- The node has committed to all its offers. -/
def Initiated (s : Node) : Prop :=
  ∀ (r : OfferRef) o, s.offers[r]? = some o → o.state ≠ .openCreated

section

variable {s s' : Node} {r r' : OfferRef} {o : Offer} {t : OfferTrigger} {d : OfferState}
  {k : OfferKwargs} {m : Match} {es : List Event} {sc : StateChange} {fresh : Prop}

theorem said_concat (hevents : s'.events = s.events ++ es) :
    s'.said r = s.said r ++ es.filter (Event.about r) := by
  rw [Node.said, hevents, List.filter_append, Node.said]

theorem filter_about_entryEvents (r r' : OfferRef) (d : OfferState) (k : OfferKwargs) :
    (entryEvents r d k).filter (Event.about r') = if r' = r then entryEvents r d k else [] := by
  have habout : ∀ e ∈ entryEvents r d k, e.about r' = decide (r' = r) := by
    intro e he
    have hoffer : ∃ e', e = .commitmentService e' ∧ e'.offer = r := by
      cases d <;> simp only [entryEvents, List.mem_singleton, List.not_mem_nil, List.mem_map] at he
      case pendingWaitForRefund =>
        obtain ⟨p, -, rfl⟩ := he
        exact ⟨_, rfl, rfl⟩
      all_goals first | exact he.elim | exact ⟨_, he, rfl⟩
    obtain ⟨e', rfl, rfl⟩ := hoffer
    exact decide_eq_decide.mpr eq_comm
  split_ifs with hr
  · exact List.filter_eq_self.mpr fun e he => (habout e he).trans (decide_eq_true hr)
  · exact List.filter_eq_nil_iff.mpr fun e he => by rw [habout e he, decide_eq_false hr]; simp

namespace Talks

theorem init (market : TokenPair) : Talks (.init market) :=
  ⟨by simp [Node.init], fun _ _ => rfl⟩

/-- Offers are as before, and nothing more is said of them. -/
theorem of_eq (hs : Talks s) (hoffers : s'.offers = s.offers)
    (hsaid : ∀ r, s'.said r = s.said r) : Talks s' :=
  ⟨fun r o ho => hsaid r ▸ hs.known r o (hoffers ▸ ho),
    fun r hr => (hsaid r).trans (hs.unknown r (hoffers ▸ hr))⟩

theorem quiet (hs : Talks s) (h : Quiet s s') : Talks s' := by
  obtain ⟨es, hes, hquiet⟩ := h.events
  refine hs.of_eq h.offers fun r => ?_
  have hnone : es.filter (Event.about r) = [] := by
    refine List.filter_eq_nil_iff.mpr ?_
    intro e he
    have hq := hquiet e he
    cases e with
    | commitmentService => cases hq
    | trader e => cases e <;> first | cases hq; done | simp [Event.about]
    | raidenListener | transport => simp [Event.about]
  rw [said_concat hes, hnone, List.append_nil]

theorem created (hs : Talks s) (b : BasicOffer Number) (role : TraderRole) :
    Talks (s.created b role) := by
  refine ⟨fun r o ho => ?_, fun r hr => ?_⟩
  · rcases created_cases ho with ho | ⟨rfl, rfl⟩
    · exact hs.known r o ho
    · have hnone : s.said s.nextOffer = [] :=
        hs.unknown _ (List.getElem?_eq_none (Nat.le_refl _))
      have hsaid : (s.created b role).said s.nextOffer = [] := hnone
      rw [hsaid]
      exact .created
  · refine hs.unknown r ?_
    rw [List.getElem?_eq_none_iff] at hr ⊢
    exact (Nat.le_succ _).trans ((List.length_append ..).ge.trans hr)

/-- The offer at `r` has changed, and what is said is about it. -/
theorem changed (hs : Talks s) {o' : Offer} (ho : s.offers[r]? = some o)
    (hoffers : s'.offers = s.offers.set r o')
    (hself : Conversation r o'.state (s'.said r))
    (hother : ∀ r', r' ≠ r → s'.said r' = s.said r') : Talks s' := by
  refine ⟨fun r' o₁ ho₁ => ?_, fun r' hr' => ?_⟩
  · rw [hoffers] at ho₁
    rcases List.getElem?_set_cases ho₁ with ⟨rfl, rfl⟩ | ⟨hne, ho₁⟩
    · exact hself
    · rw [hother r' hne]
      exact hs.known r' o₁ ho₁
  · have hnone : s.offers[r']? = none := by
      rw [hoffers, List.getElem?_eq_none_iff, List.length_set] at hr'
      exact List.getElem?_eq_none hr'
    have hne : r' ≠ r := by rintro rfl; rw [ho] at hnone; cases hnone
    rw [hother r' hne]
    exact hs.unknown r' hnone

theorem entered (hs : Talks s) (ho : s.offers[r]? = some o) (hd : t.dest o.state = some d)
    (hfailed : t ≠ .paymentFailed) (hmatch : t ≠ .foundMatch)
    (hnew : o.state = .openCreated → t = .initiating)
    (hkwargs : t = .receivedInbound → k.raidenEvent.isSome) : Talks (s.entered r o d k) := by
  have hsaid (r' : OfferRef) : (s.entered r o d k).said r' =
      s.said r' ++ if r' = r then entryEvents r d k else [] :=
    (said_concat rfl).trans (congrArg _ (filter_about_entryEvents r r' d k))
  refine hs.changed ho rfl ?_ fun r' hr' => ?_
  · rw [hsaid, if_pos rfl]
    exact (hs.known r o ho).enter hd hfailed hmatch hnew hkwargs
  · rw [hsaid, if_neg hr', List.append_nil]

theorem exchanging (hs : Talks s) (hm : m.offer = some r) (ho : s.offers[r]? = some o)
    (hd : OfferTrigger.foundMatch.dest o.state = some .pendingExchanging) :
    Talks (s.exchanging m r o) := by
  have hevents : (s.exchanging m r o).events = s.events ++
      [.trader (.swapInit m), .raidenListener (.expectInbound m.target o.offerId)] := by
    simp only [Node.exchanging, Node.entered, entryEvents, List.append_nil]
  refine hs.changed ho rfl ?_ fun r' hr' => ?_
  · rw [said_concat hevents]
    simp only [Event.about, hm, List.filter_cons, decide_true, if_true, Bool.false_eq_true,
      if_false, List.filter_nil]
    exact (hs.known r o ho).exchange hm hd
  · rw [said_concat hevents]
    simp [Event.about, hm, hr'.symm]

/-- An offer that the node has committed to takes a trigger. -/
theorem fired (hs : Talks s) (hinit : Initiated s) (ho : s.offers[r]? = some o)
    (hd : t.dest o.state = some d) (hfailed : t ≠ .paymentFailed) (hmatch : t ≠ .foundMatch)
    (hkwargs : t = .receivedInbound → k.raidenEvent.isSome) : Talks (s.entered r o d k) :=
  hs.entered ho hd hfailed hmatch (fun hst => absurd hst (hinit r o ho)) hkwargs

/-- Only a limit order finds offers that the node has not committed to. -/
theorem effect (hs : Talks s) (hinit : (∀ data, sc ≠ .newLimitOrder data) → Initiated s)
    (h : Effect fresh sc s s') : Talks s' := by
  cases h with
  | quiet h => exact hs.quiet h
  | created data b role _ => exact hs.created b role
  | taken data e _ => exact (hs.created e.takeOffer .taker).of_eq rfl fun _ => rfl
  | entered ho hmodel hd hfires =>
    cases hfires with
    | initiating data =>
      exact hs.entered ho hd (by decide) (by decide) (fun _ => rfl) fun h => by cases h
    | timeout | canceled | cancellationProved | published | proved =>
      refine hs.fired (hinit fun _ h => ?_) ho hd (by decide) (by decide) fun h => ?_
      all_goals cases h
    | inbound e m hm hr hstate =>
      exact hs.fired (hinit fun _ h => by cases h) ho hd (by decide) (by decide) fun _ => rfl
  | provedMatched p hr ho hmodel hstate hm hr' ho' hmodel' hd =>
    have hproved : OfferTrigger.receiveCommitmentProof.dest _ = some .openProved :=
      congrArg _ hstate
    refine Talks.exchanging ?_ hr' ho' hd
    exact hs.fired (hinit fun _ h => by cases h) ho hproved (by decide) (by decide)
      fun h => by cases h
  | called offerId initiator p hr ho hmodel hd =>
    exact Talks.exchanging (hs.of_eq rfl fun _ => rfl) rfl ho hd
  | completed e hm hr ho hmodel hstate hr' =>
    have hinbound : OfferTrigger.receivedInbound.dest _ = some .completed := congrArg _ hstate
    refine Talks.of_eq (hs.fired (hinit fun _ h => ?_) ho hinbound ?_ ?_ fun _ => rfl) rfl
      fun _ => rfl
    · cases h
    · decide
    · decide

theorem broken (hs : Talks s) (hinit : (∀ data, sc ≠ .newLimitOrder data) → Initiated s)
    (h : Broken sc s s') : Talks s' := by
  cases h with
  | unmatched p hr ho hmodel hstate hm =>
    have hproved : OfferTrigger.receiveCommitmentProof.dest _ = some .openProved :=
      congrArg _ hstate
    exact hs.fired (hinit fun _ h => by cases h) ho hproved (by decide) (by decide)
      fun h => by cases h
  | called offerId initiator p => exact hs.of_eq rfl fun _ => rfl
  | unremoved e hm hr ho hmodel hstate =>
    have hinbound : OfferTrigger.receivedInbound.dest _ = some .completed := congrArg _ hstate
    refine Talks.of_eq (hs.fired (hinit fun _ h => ?_) ho hinbound ?_ ?_ fun _ => rfl) rfl
      fun _ => rfl
    · cases h
    · decide
    · decide

end Talks

namespace Initiated

theorem init (market : TokenPair) : Initiated (.init market) := by
  simp [Initiated, Node.init]

theorem of_eq (hs : Initiated s) (h : s'.offers = s.offers) : Initiated s' :=
  fun r o ho => hs r o (h ▸ ho)

theorem entered (hs : Initiated s) (hd : t.dest o.state = some d) :
    Initiated (s.entered r o d k) := by
  intro r' o' ho'
  rcases entered_cases ho' with ⟨rfl, rfl⟩ | ⟨-, ho'⟩
  · exact of_decide_eq_true (initiated_dest hd)
  · exact hs r' o' ho'

/-- A new offer that is initiated at once. -/
theorem initiated (hs : Initiated s) {b : BasicOffer Number} {role : TraderRole}
    {orderId : Nat} {f : LimitOrder → LimitOrder} {s₁ : Node}
    (h : s₁.offers = (s.created b role).offers) :
    Initiated ((s₁.updateOrder orderId f).entered s.nextOffer (.new b role true) .openUnproved
      {}) := by
  intro r' o' ho'
  rcases entered_cases ho' with ⟨rfl, rfl⟩ | ⟨hne, ho'⟩
  · exact fun h => by cases h
  · rw [updateOrder_offers, h] at ho'
    rcases created_cases ho' with ho' | ⟨rfl, -⟩
    · exact hs r' o' ho'
    · exact absurd rfl hne

theorem takeOffers {env : Env} {orderId : Nat} {es : List OfferBookEntry} (hs : Initiated s)
    (h : (takeOffers env orderId es).run s = .ok () s') : Initiated s' := by
  induction es generalizing s with
  | nil => cases h; exact hs
  | cons e es ih =>
    obtain ⟨_, s₁, hrun, h⟩ := EStateM.run_bind_eq_ok.mp h
    obtain ⟨-, book, rfl, -⟩ := takeOffer_returned hrun
    have hinit : Initiated (s.initiated env orderId e) := hs.initiated rfl
    refine ih ?_ h
    exact hinit.of_eq rfl

theorem offerRest {env : Env} {order : LimitOrder} {rest : Number} (hs : Initiated s)
    (h : (offerRest env order rest).run s = .ok () s') : Initiated s' := by
  obtain ⟨o, ho, hcan⟩ := offerRest_returns_iff.mp (EStateM.returns_of_ok h)
  rw [offerRest_ok ho hcan] at h
  cases h
  exact hs.initiated rfl

theorem processOrder {env : Env} {order : LimitOrder} (hs : Initiated s)
    (h : (processOrder env order).run s = .ok () s') : Initiated s' := by
  obtain ⟨taken, rest, hmatch⟩ :=
    matchLimit_ok s.offerBook order.price order.orderType order.amount
  rw [processOrder_run hmatch] at h
  obtain ⟨_, s₁, htaken, h⟩ := EStateM.run_bind_eq_ok.mp h
  have hs₁ : Initiated s₁ := by
    refine takeOffers ?_ htaken
    exact hs.of_eq rfl
  split_ifs at h
  · exact hs₁.offerRest h
  · cases h
    exact hs₁

theorem effect (hs : Initiated s) (hsc : ∀ data, sc ≠ .newLimitOrder data)
    (h : Effect fresh sc s s') : Initiated s' := by
  cases h with
  | quiet h => exact hs.of_eq h.offers
  | created data => exact absurd rfl (hsc data)
  | taken data => exact absurd rfl (hsc data)
  | entered ho hmodel hd => exact hs.entered hd
  | provedMatched p hr ho hmodel hstate hm hr' ho' hmodel' hd =>
    have hproved : OfferTrigger.receiveCommitmentProof.dest _ = some .openProved :=
      congrArg _ hstate
    exact of_eq ((hs.entered hproved).entered hd) rfl
  | called offerId initiator p hr ho hmodel hd => exact of_eq (hs.entered hd) rfl
  | completed e hm hr ho hmodel hstate hr' =>
    have hinbound : OfferTrigger.receivedInbound.dest _ = some .completed := congrArg _ hstate
    exact of_eq (hs.entered hinbound) rfl

/-- A handler that returns leaves no offer without its commitment. -/
theorem handled {env : Env} (hs : Initiated s)
    (h : ((handleStateChange env sc).run s).returned = true) :
    Initiated ((handleStateChange env sc).run s).state := by
  by_cases hsc : ∃ data, sc = .newLimitOrder data
  · obtain ⟨data, rfl⟩ := hsc
    obtain ⟨_, s', hok⟩ := EStateM.returns_iff.mp h
    have hstate : ((handleStateChange env (.newLimitOrder data)).run s).state = s' := by
      rw [hok]
      rfl
    rw [hstate]
    exact hs.processOrder hok
  · have hsc (data : OrderData) (heq : sc = .newLimitOrder data) : False := hsc ⟨data, heq⟩
    exact (handled_proceeds env sc s).keeps hs (fun _ _ heff hP => hP.effect hsc heff) h

end Initiated

theorem Talks.handled {env : Env} (hs : Talks s) (hinit : Initiated s) :
    Talks ((handleStateChange env sc).run s).state := by
  by_cases hsc : ∃ data, sc = .newLimitOrder data
  · obtain ⟨data, rfl⟩ := hsc
    exact (handled_proceeds env _ s).invariant hs
      (fun _ _ heff hP => hP.effect (fun h => absurd rfl (h data)) heff)
      (fun _ _ hb hP => hP.broken (fun h => absurd rfl (h data)) hb) fun _ hP => hP
  · have hsc (data : OrderData) (heq : sc = .newLimitOrder data) : False := hsc ⟨data, heq⟩
    exact (handled_proceeds env sc s).invariant (P := fun s => Talks s ∧ Initiated s)
      ⟨hs, hinit⟩
      (fun _ _ heff hP => ⟨hP.1.effect (fun _ => hP.2) heff, hP.2.effect hsc heff⟩)
      (fun _ _ hb hP => hP.1.broken (fun _ => hP.2) hb) fun _ hP => hP.1

end

end RaidexNode
end Raidex
