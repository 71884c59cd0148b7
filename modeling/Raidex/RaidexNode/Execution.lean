import Raidex.RaidexNode.Progress
import Raidex.RaidexNode.Steps

/-!
# Raidex.RaidexNode.Execution

For which payments a node reports that a swap was executed.

* `Paired`: what a running node knows of its matches, of the payments it expects and of those it
  reported.
* `Agreed`: the payment that the consumer is about to act on covers what the counterparty owes.
  The node never checks this.
* `execution_backed`: in a run whose steps are agreed, an offer starts waiting for its refund only
  after the payment that was agreed.
-/

namespace Raidex
namespace RaidexNode

/-- What the counterparty owes to a match whose offer is `o`. -/
def Match.getOwedAmount (m : Match) (o : Offer) : Number :=
  if m.isMaker && o.isBuy || m.isTaker && o.isSell then o.baseAmount else o.quoteAmount

/-! ## Matches and payments -/

/-- The payment is one of the counterparty of a match, or comes after it. -/
def Awaited (s : Node) (initiator : Address) (identifier : Nat) : Prop :=
  ∃ m r o, s.matchesById.lookup identifier = some m ∧ m.offer = some r ∧
    s.offers[r]? = some o ∧ (initiator = m.target ∨ o.state.executed = true)

/-- The node expects payments of its matches only, and does not make payments up. -/
def Expected (s : Node) : RaidenListenerEvent → Prop
  | .expectInbound initiator identifier => Awaited s initiator identifier
  | .paymentReceived _ => False
  | .channelFilter | .channelStatus _ => True

/-- The payment of the counterparty has come. -/
def Reported (s : Node) (r : OfferRef) : Prop :=
  ∃ m o, s.offers[r]? = some o ∧ s.matchesById.lookup o.offerId = some m ∧ m.offer = some r ∧
    o.state.executed = true

structure Paired (s : Node) : Prop where
  managed : Managed s
  matched : ∀ id m, s.matchesById.lookup id = some m → ∃ r o, m.offer = some r ∧
    s.getOffer id = some r ∧ s.offers[r]? = some o ∧ o.state ≠ .openProved ∧
    o.state ≠ .openPublished
  expected : ∀ e, Event.raidenListener e ∈ s.events → Expected s e
  reported : ∀ r e, Event.commitmentService (.receivedInbound r e) ∈ s.events → Reported s r

/-- What was awaited or reported still is. -/
structure Keeps (s s' : Node) : Prop where
  awaited : ∀ initiator identifier, Awaited s initiator identifier → Awaited s' initiator identifier
  reported : ∀ r, Reported s r → Reported s' r

theorem Keeps.refl (s : Node) : Keeps s s := ⟨fun _ _ => id, fun _ => id⟩

theorem Keeps.trans {s s₁ s₂ : Node} (h : Keeps s s₁) (h' : Keeps s₁ s₂) : Keeps s s₂ where
  awaited i id hi := h'.awaited i id (h.awaited i id hi)
  reported r hr := h'.reported r (h.reported r hr)

theorem Keeps.expected {s s' : Node} (h : Keeps s s') {e : RaidenListenerEvent}
    (he : Expected s e) : Expected s' e := by
  cases e with
  | expectInbound i id => exact h.awaited i id he
  | _ => exact he

/-- Offers advance, and the matches there were are the same. -/
theorem Keeps.of_advances {s s' : Node} (h : s.Advances s')
    (hmatches : ∀ id m, s.matchesById.lookup id = some m → s'.matchesById.lookup id = some m) :
    Keeps s s' where
  awaited i id := by
    rintro ⟨m, r, o, hm, hr, ho, hi⟩
    obtain ⟨o', ho', hlater⟩ := h r o ho
    exact ⟨m, r, o', hmatches id m hm, hr, ho', hi.imp_right hlater.executed⟩
  reported r := by
    rintro ⟨m, o, ho, hm, hr, he⟩
    obtain ⟨o', ho', hlater⟩ := h r o ho
    exact ⟨m, o', ho', hlater.offerId ▸ hmatches _ m hm, hr, hlater.executed he⟩

theorem not_mem_entryEvents_raidenListener {r : OfferRef} {d : OfferState} {k : OfferKwargs}
    {e : RaidenListenerEvent} : Event.raidenListener e ∉ entryEvents r d k := by
  cases d <;> simp [entryEvents]

/-- Only an offer that starts waiting for its refund reports a payment. -/
theorem receivedInbound_mem_entryEvents {r r' : OfferRef} {d : OfferState} {k : OfferKwargs}
    {e : PaymentReceivedEvent}
    (h : Event.commitmentService (.receivedInbound r' e) ∈ entryEvents r d k) :
    r' = r ∧ d = .pendingWaitForRefund := by
  cases d <;> simp_all [entryEvents]

namespace Paired

variable {s s' : Node} {r : OfferRef} {o : Offer} {t : OfferTrigger} {d : OfferState}
  {k : OfferKwargs} {sc : StateChange}

theorem init (market : TokenPair) : Paired (.init market) :=
  ⟨.init market, by simp [Node.init], by simp [Node.init], by simp [Node.init]⟩

/-- Where a match is known, the offer has its id and is the managed one. -/
theorem match_offer (hs : Paired s) {id : Nat} {m : Match} (hm : s.matchesById.lookup id = some m)
    (hr : m.offer = some r) (ho : s.offers[r]? = some o) : s.getOffer id = some r ∧
      o.offerId = id ∧ o.state ≠ .openProved ∧ o.state ≠ .openPublished := by
  obtain ⟨r', o', hr', hget, ho', hne⟩ := hs.matched id m hm
  cases hr.symm.trans hr'
  cases ho.symm.trans ho'
  exact ⟨hget, hs.managed.offerId hget ho, hne⟩

/-- Offers advance, none with a match into a state in which it waits for one. -/
theorem of_advances (hs : Paired s) (h : s.Advances s')
    (hmanager : s'.offerManager = s.offerManager) (hmatches : s'.matchesById = s.matchesById)
    (hstate : ∀ id m r o, s.matchesById.lookup id = some m → m.offer = some r →
      s'.offers[r]? = some o → o.state ≠ .openProved ∧ o.state ≠ .openPublished)
    (hexpected : ∀ e, Event.raidenListener e ∈ s'.events →
      Event.raidenListener e ∈ s.events ∨ Expected s' e)
    (hreported : ∀ r e, Event.commitmentService (.receivedInbound r e) ∈ s'.events →
      Event.commitmentService (.receivedInbound r e) ∈ s.events ∨ Reported s' r) : Paired s' := by
  have hkeeps : Keeps s s' := .of_advances h fun id m hm => by rw [hmatches]; exact hm
  refine ⟨hs.managed.advances h hmanager, ?_, ?_, ?_⟩
  · intro id m hm
    rw [hmatches] at hm
    obtain ⟨r, o, hr, hget, ho, -⟩ := hs.matched id m hm
    obtain ⟨o', ho', -⟩ := h r o ho
    refine ⟨r, o', hr, ?_, ho', hstate id m r o' hm hr ho'⟩
    rw [Node.getOffer, hmanager]; exact hget
  · intro e he
    exact (hexpected e he).elim (fun he => hkeeps.expected (hs.expected e he)) fun he => he
  · intro r e hr
    exact (hreported r e hr).elim (fun hr => hkeeps.reported r (hs.reported r e hr)) fun hr => hr

theorem of_eq (hs : Paired s) (hoffers : s'.offers = s.offers)
    (hmanager : s'.offerManager = s.offerManager) (hmatches : s'.matchesById = s.matchesById)
    (hevents : s'.events = s.events) : Paired s' :=
  hs.of_advances (.of_eq hoffers) hmanager hmatches
    (fun _ _ _ _ hm hr ho => (hs.match_offer hm hr (hoffers ▸ ho)).2.2)
    (fun _ he => .inl (hevents ▸ he)) fun _ _ hr => .inl (hevents ▸ hr)

theorem quiet (hs : Paired s) (h : Quiet s s') : Paired s' := by
  obtain ⟨hoffers, -, hmanager, hmatches, es, hes, hquiet⟩ := h
  refine hs.of_advances (.of_eq hoffers) hmanager hmatches ?_ ?_ ?_
  · intro id m r o hm hr ho
    exact (hs.match_offer hm hr (hoffers ▸ ho)).2.2
  · intro e he
    rw [hes, List.mem_append] at he
    refine he.imp_right ?_
    intro he
    have hq := hquiet _ he
    cases e <;> trivial
  · intro r e hr
    rw [hes, List.mem_append] at hr
    exact .inl (hr.resolve_right fun hr => by cases hquiet _ hr)

/-- The node has no match for an id that it does not know. -/
theorem unmatched (hs : Paired s) {id : Nat} (h : s.hasOffer id = false) :
    s.matchesById.lookup id = none := by
  cases hm : s.matchesById.lookup id with
  | none => rfl
  | some m =>
    obtain ⟨r, o, -, hget, -⟩ := hs.matched id m hm
    have hno : s.getOffer id = none := by
      rw [Node.getOffer, AList.lookup_eq_none]
      exact of_decide_eq_false h
    rw [hno] at hget; cases hget

theorem created (hs : Paired s) {b : BasicOffer Number} (role : TraderRole)
    (hfresh : s.hasOffer b.offerId = false) : Paired (s.created b role) := by
  have hkeeps : Keeps s (s.created b role) := .of_advances (.created b role) fun _ _ hm => hm
  refine ⟨hs.managed.created b role, fun id m hm => ?_,
    fun e he => hkeeps.expected (hs.expected e he),
    fun r e hr => hkeeps.reported r (hs.reported r e hr)⟩
  obtain ⟨r, o, hr, hget, ho, hne⟩ := hs.matched id m hm
  have hid : id ≠ b.offerId := by
    rintro rfl
    have := hs.unmatched hfresh
    rw [show s.matchesById.lookup b.offerId = some m from hm] at this
    cases this
  exact ⟨r, o, hr, (AList.lookup_insert_ne hid).trans hget, created_old ho, hne⟩

/-- A match for an id that has none. -/
theorem setMatch (hs : Paired s) (id : Nat) (m : Match) (hnew : s.matchesById.lookup id = none)
    (hm : ∃ r o, m.offer = some r ∧ s.getOffer id = some r ∧ s.offers[r]? = some o ∧
      o.state ≠ .openProved ∧ o.state ≠ .openPublished) :
    Paired { s with matchesById := s.matchesById.insert id m } ∧
      Keeps s { s with matchesById := s.matchesById.insert id m } := by
  have hold (id' : Nat) (m' : Match) (hm' : s.matchesById.lookup id' = some m') :
      (s.matchesById.insert id m).lookup id' = some m' := by
    have hid : id' ≠ id := by rintro rfl; rw [hnew] at hm'; cases hm'
    rw [AList.lookup_insert_ne hid]; exact hm'
  have hkeeps : Keeps s { s with matchesById := s.matchesById.insert id m } :=
    .of_advances (.of_eq rfl) hold
  refine ⟨⟨hs.managed, fun id' m' hm' => ?_, fun e he => hkeeps.expected (hs.expected e he),
    fun r e hr => hkeeps.reported r (hs.reported r e hr)⟩, hkeeps⟩
  by_cases hid : id' = id
  · subst hid
    obtain rfl : m = m' := Option.some.inj ((AList.lookup_insert ..).symm.trans hm')
    exact hm
  · exact hs.matched id' m' ((AList.lookup_insert_ne hid).symm.trans hm')

theorem entered (hs : Paired s) (ho : s.offers[r]? = some o) (hd : t.dest o.state = some d)
    (hfree : d ≠ .openProved ∧ d ≠ .openPublished ∨ s.matchesById.lookup o.offerId = none)
    (hin : d = .pendingWaitForRefund →
      ∃ m, s.matchesById.lookup o.offerId = some m ∧ m.offer = some r) :
    Paired (s.entered r o d k) := by
  refine hs.of_advances (.entered ho hd) rfl rfl ?_ ?_ ?_
  · intro id m r' o' hm hr' ho'
    rcases entered_cases ho' with ⟨rfl, rfl⟩ | ⟨-, ho'⟩
    · refine hfree.resolve_right ?_
      intro hnone
      rw [(hs.match_offer hm hr' ho).2.1, hm] at hnone
      cases hnone
    · exact (hs.match_offer hm hr' ho').2.2
  · intro e he
    exact .inl ((List.mem_append.mp he).resolve_right not_mem_entryEvents_raidenListener)
  · intro r' e hr'
    refine (List.mem_append.mp hr').imp_right ?_
    intro hr'
    obtain ⟨rfl, rfl⟩ := receivedInbound_mem_entryEvents hr'
    obtain ⟨m, hm, hr⟩ := hin rfl
    exact ⟨m, _, entered_self ho, hm, hr, rfl⟩

/-- The events of a match that is made. -/
theorem exchanging_events {s : Node} {m : Match} {e : Event}
    (h : e ∈ (s.exchanging m r o).events) : e ∈ s.events ∨ e = .trader (.swapInit m) ∨
      e = .raidenListener (.expectInbound m.target o.offerId) := by
  simpa [Node.exchanging, Node.entered, entryEvents] using h

/-- The events of a match that is made, where it is the match of its offer. -/
theorem exchanged (hs : Paired s) {m : Match} {id : Nat} (hm : s.matchesById.lookup id = some m) :
    Paired { s with events := s.events ++
      [.trader (.swapInit m), .raidenListener (.expectInbound m.target id)] } := by
  refine hs.of_advances (.of_eq rfl) rfl rfl ?_ ?_ ?_
  · exact fun id m r o hm hr ho => (hs.match_offer hm hr ho).2.2
  · intro e he
    refine (List.mem_append.mp he).imp_right ?_
    intro he
    obtain rfl : e = .expectInbound m.target id := by simpa using he
    obtain ⟨r, o, hr, -, ho, -⟩ := hs.matched id m hm
    exact ⟨m, r, o, hm, hr, ho, .inl rfl⟩
  · intro r e hr
    exact .inl ((List.mem_append.mp hr).resolve_right (by simp))

/-- The offer of a match is proved and the match is made at once. -/
theorem provedMatched (hs : Paired s) {m : Match} {r' : OfferRef} {o' : Offer}
    (ho : s.offers[r]? = some o) (hstate : o.state = .openUnproved)
    (hm : s.matchesById.lookup o.offerId = some m) (hr' : m.offer = some r')
    (ho' : (s.entered r o .openProved k).offers[r']? = some o')
    (hd : OfferTrigger.foundMatch.dest o'.state = some .pendingExchanging) :
    Paired ((s.entered r o .openProved k).exchanging m r' o') := by
  have hproved : OfferTrigger.receiveCommitmentProof.dest o.state = some .openProved :=
    congrArg _ hstate
  have hadv : s.Advances (s.entered r o .openProved k) := .entered ho hproved
  obtain ⟨r₀, o₀, hr₀, hget₀, ho₀, -⟩ := hs.matched _ _ hm
  cases hr'.symm.trans hr₀
  obtain ⟨o₁, ho₁, hlater⟩ := hadv _ _ ho₀
  cases ho'.symm.trans ho₁
  have hid : o'.offerId = o.offerId := hlater.offerId.trans (hs.managed.offerId hget₀ ho₀)
  refine hs.of_advances (hadv.trans (.exchanging ho' hd)) rfl rfl ?_ ?_ ?_
  · intro id m₂ r₂ o₂ hm₂ hr₂ ho₂
    rcases entered_cases ho₂ with ⟨-, rfl⟩ | ⟨hne, ho₂⟩
    · exact ⟨nofun, nofun⟩
    rcases entered_cases ho₂ with ⟨rfl, rfl⟩ | ⟨-, ho₂⟩
    · -- this match is the one made now, so its offer is exchanging
      rw [(hs.match_offer hm₂ hr₂ ho).2.1, hm₂] at hm
      cases hm
      exact absurd (Option.some.inj (hr₂.symm.trans hr')) hne
    · exact (hs.match_offer hm₂ hr₂ ho₂).2.2
  · intro e he
    rcases exchanging_events he with he | he | he
    · exact .inl ((List.mem_append.mp he).resolve_right not_mem_entryEvents_raidenListener)
    · cases he
    · cases he
      exact .inr ⟨m, _, _, hid ▸ hm, hr', entered_self ho', .inl rfl⟩
  · intro r₂ e hr₂
    rcases exchanging_events hr₂ with hr₂ | hr₂ | hr₂
    · refine .inl ((List.mem_append.mp hr₂).resolve_right fun h => ?_)
      cases (receivedInbound_mem_entryEvents h).2
    · cases hr₂
    · cases hr₂

theorem effect (hs : Paired s) (h : Effect True sc s s') : Paired s' ∧ Keeps s s' := by
  have hadv := h.advances
  have hkeeps (hmatches : s'.matchesById = s.matchesById) : Keeps s s' :=
    .of_advances hadv fun id m hm => by rw [hmatches]; exact hm
  cases h with
  | quiet h => exact ⟨hs.quiet h, hkeeps h.matchesById⟩
  | created data b role hfresh => exact ⟨hs.created role (hfresh trivial), hkeeps rfl⟩
  | taken data e hfresh =>
    have hcreated := hs.created (b := e.takeOffer) .taker (hfresh trivial)
    obtain ⟨hset, hk⟩ := hcreated.setMatch e.offerId (takerMatch s.nextOffer e)
      (hs.unmatched (hfresh trivial))
      ⟨s.nextOffer, _, rfl, AList.lookup_insert .., List.getElem?_concat_length, nofun, nofun⟩
    exact ⟨hset, (Keeps.of_advances (.created e.takeOffer .taker) fun _ _ hm => hm).trans hk⟩
  | @entered _ _ r o t k d ho hmodel hd hfires =>
    refine ⟨hs.entered ho hd ?_ ?_, hkeeps rfl⟩
    · by_cases hpub : t = .receivedOffer ∨ t = .receiveCommitmentProof
      · right
        cases hfires with
        | proved p hr hm => exact hm
        | published e hr =>
          -- a match never waits in a proved offer
          have hproved : o.state = .openProved := by
            revert hd; cases o.state <;> intro hd <;> cases hd; rfl
          cases hm : s.matchesById.lookup o.offerId with
          | none => rfl
          | some m =>
            obtain ⟨r', o', -, hget, ho', hne, -⟩ := hs.matched _ _ hm
            rw [hs.managed.offerId hr ho, hr] at hget
            cases hget
            cases ho.symm.trans ho'
            exact absurd hproved hne
        | _ => rcases hpub with hpub | hpub <;> cases hpub
      · left
        revert hd hpub
        cases t <;> cases o.state <;> intro hd hpub <;> cases hd
        all_goals simp at hpub ⊢
    · rintro rfl
      cases hfires with
      | inbound e m hm hr hstate =>
        exact ⟨m, (hs.match_offer hm hr ho).2.1 ▸ hm, hr⟩
      | _ => revert hd; cases o.state <;> exact nofun
  | provedMatched p hr ho hmodel hstate hm hr' ho' hmodel' hd =>
    exact ⟨hs.provedMatched ho hstate hm hr' ho' hd, hkeeps rfl⟩
  | @called _ r o offerId initiator p hr ho hmodel hd =>
    have hnone : s.matchesById.lookup offerId = none := by
      cases hm : s.matchesById.lookup offerId with
      | none => rfl
      | some m =>
        obtain ⟨r', o', -, hget, ho', hne⟩ := hs.matched _ _ hm
        cases hr.symm.trans hget
        cases ho.symm.trans ho'
        revert hd; cases hst : o.state <;> intro hd <;> cases hd
        · exact absurd hst hne.1
        · exact absurd hst hne.2
    have hid := hs.managed.offerId hr ho
    have hentered : Paired (s.entered r o .pendingExchanging {}) :=
      hs.entered ho hd (.inl ⟨nofun, nofun⟩) nofun
    obtain ⟨hset, hk⟩ := hentered.setMatch offerId (makerMatch (some r) initiator p) hnone
      ⟨r, _, rfl, hr, entered_self ho, nofun, nofun⟩
    subst hid
    refine ⟨hset.exchanged (AList.lookup_insert ..), ?_⟩
    have hfirst : Keeps s (s.entered r o .pendingExchanging {}) :=
      .of_advances (.entered ho hd) fun _ _ hm => hm
    exact (hfirst.trans hk).trans (.of_advances (.of_eq rfl) fun _ _ hm => hm)
  | completed e hm hr ho hmodel hstate hr' =>
    have hdest : OfferTrigger.receivedInbound.dest _ = some .completed := congrArg _ hstate
    have hentered := hs.entered (k := { raidenEvent := some e }) ho hdest
      (.inl ⟨nofun, nofun⟩) nofun
    exact ⟨hentered.of_eq rfl rfl rfl rfl, hkeeps rfl⟩

end Paired

/-! ## One step -/

section

variable {fresh : Prop} {s₀ s s' : Node} {sc : StateChange} {r : OfferRef}

/-- The offer at `r` is exchanging, or the payment that is handled is one of a match of it. -/
def Progressing (s₀ : Node) (sc : StateChange) (r : OfferRef) (s : Node) : Prop :=
  (∃ o, s.offers[r]? = some o ∧ o.state = .pendingExchanging) ∨
    ∃ e m, sc = .transferReceived e ∧ s₀.matchesById.lookup e.identifier = some m ∧
      m.offer = some r

theorem transferReceived_matchesById {e : PaymentReceivedEvent}
    (h : Effect fresh (.transferReceived e) s s') : s'.matchesById = s.matchesById := by
  cases h with
  | quiet h => exact h.matchesById
  | entered | completed => rfl

/-- An offer other than one that is entered from another state keeps exchanging. -/
theorem exchanging_entered {r' : OfferRef} {o o' : Offer} {d : OfferState} {k : OfferKwargs}
    (ho : s.offers[r]? = some o) (hstate : o.state = .pendingExchanging)
    (ho' : s.offers[r']? = some o') (hne : o'.state ≠ .pendingExchanging) :
    (s.entered r' o' d k).offers[r]? = some o := by
  refine (entered_other fun hr => hne ?_).trans ho
  subst hr
  cases ho.symm.trans ho'
  exact hstate

theorem Progressing.effect (hmatches : ∀ e, sc = .transferReceived e →
      s.matchesById = s₀.matchesById) (hs : Progressing s₀ sc r s) (h : Effect fresh sc s s') :
    Progressing s₀ sc r s' := by
  rcases hs with ⟨o, ho, hstate⟩ | hs
  swap
  · exact .inr hs
  have hunmatchable {st : OfferState} (hd : OfferTrigger.foundMatch.dest st =
      some .pendingExchanging) : st ≠ .pendingExchanging := by rintro rfl; cases hd
  cases h with
  | quiet h => exact .inl ⟨o, h.offers ▸ ho, hstate⟩
  | created data b role _ => exact .inl ⟨o, created_old ho, hstate⟩
  | taken data e _ => exact .inl ⟨o, created_old ho, hstate⟩
  | @entered _ _ r' o' t k d ho' hmodel hd hfires =>
    by_cases hst : o'.state = .pendingExchanging
    swap
    · exact .inl ⟨o, exchanging_entered ho hstate ho' hst, hstate⟩
    by_cases hr : r = r'
    swap
    · exact .inl ⟨o, (entered_other hr).trans ho, hstate⟩
    subst hr
    cases hfires with
    | inbound e m hm hr _ => exact .inr ⟨e, m, rfl, hmatches e rfl ▸ hm, hr⟩
    | _ => rw [hst] at hd; cases hd
  | provedMatched p hr ho' hmodel hst hm hr' ho'' hmodel' hd =>
    have ho₁ := exchanging_entered (d := .openProved) (k := { proof := some p }) ho hstate ho'
      (by rw [hst]; exact nofun)
    exact .inl ⟨o, exchanging_entered ho₁ hstate ho'' (hunmatchable hd), hstate⟩
  | called offerId initiator p hr ho' hmodel hd =>
    exact .inl ⟨o, exchanging_entered ho hstate ho' (hunmatchable hd), hstate⟩
  | completed e hm hr ho' hmodel hst hr' =>
    exact .inl ⟨o, exchanging_entered ho hstate ho' (by rw [hst]; exact nofun), hstate⟩

theorem Progressing.broken (hs : Progressing s₀ sc r s) (h : Broken sc s s') :
    Progressing s₀ sc r s' := by
  rcases hs with ⟨o, ho, hstate⟩ | hs
  swap
  · exact .inr hs
  cases h with
  | unmatched p hr ho' hmodel hst hm =>
    exact .inl ⟨o, exchanging_entered ho hstate ho' (by rw [hst]; exact nofun), hstate⟩
  | called offerId initiator p => exact .inl ⟨o, ho, hstate⟩
  | unremoved e hm hr ho' hmodel hst =>
    exact .inl ⟨o, exchanging_entered ho hstate ho' (by rw [hst]; exact nofun), hstate⟩

/-- An offer leaves the state in which it exchanges for a payment of its match only. -/
theorem leaves_exchanging {env : Env} {o o' : Offer} (ho : s.offers[r]? = some o)
    (hstate : o.state = .pendingExchanging)
    (ho' : ((handleStateChange env sc).run s).state.offers[r]? = some o')
    (hstate' : o'.state ≠ .pendingExchanging) : ∃ e m, sc = .transferReceived e ∧
      s.matchesById.lookup e.identifier = some m ∧ m.offer = some r := by
  let P (s₁ : Node) : Prop := (∀ e, sc = .transferReceived e → s₁.matchesById = s.matchesById) ∧
    Progressing s sc r s₁
  have hproceeds := handled_proceeds env sc s
  have hend : Progressing s sc r ((handleStateChange env sc).run s).state := by
    refine hproceeds.invariant (P := P) ⟨fun _ _ => rfl, .inl ⟨o, ho, hstate⟩⟩ ?_
      (fun s₁ s₂ hb hP => hP.2.broken hb) fun s₁ hP => hP.2
    rintro s₁ s₂ heff ⟨hmatches, hprog⟩
    refine ⟨?_, hprog.effect hmatches heff⟩
    rintro e rfl
    exact (transferReceived_matchesById heff).trans (hmatches e rfl)
  refine hend.resolve_left ?_
  rintro ⟨o'', ho'', hst⟩
  cases ho'.symm.trans ho''
  exact hstate' hst

end

/-! ## Runs -/

/-- The payments that the poller saw. -/
def paymentsReceived (is : List App.Input) : List PaymentReceivedEvent :=
  is.filterMap fun
    | .payment p => some p
    | _ => none

/-- The payment that is handled covers what is owed for the offer that exchanges. -/
def CoversOwed (s : Node) : StateChange → Prop
  | .transferReceived e => ∀ m ∈ s.matchesById.lookup e.identifier, ∀ r ∈ m.offer,
      ∀ o ∈ s.offers[r]?, o.state = .pendingExchanging → (m.getOwedAmount o).le e.amount = true
  | _ => True

instance (s : Node) (sc : StateChange) : Decidable (CoversOwed s sc) :=
  match sc with
  | .transferReceived _ => inferInstanceAs (Decidable (∀ _ ∈ _, ∀ _ ∈ _, ∀ _ ∈ _, _ → _))
  | .newLimitOrder _ | .cancelLimitOrder _ | .offerTimeout .. | .commitmentProof _
  | .cancellationProof _ | .takerCall .. | .offerPublished _ | .channelStatus _ | .makeChannel .. =>
    .isTrue trivial

/-- The consumer acts on payments that cover what is owed, and on orders that register unknown
ids. -/
def App.Agreed (a : App) : App.Input → Prop
  | .handle env => a.running = true →
      ∀ sc ∈ a.stateChanges.head?, CoversOwed a.node sc ∧ FreshIds env a.node sc
  | _ => True

instance (a : App) (i : App.Input) : Decidable (a.Agreed i) :=
  match i with
  | .handle _ => inferInstanceAs (Decidable (_ → ∀ _ ∈ _, _ ∧ _))
  | .postLimitOrder .. | .deleteLimitOrder _ | .makeChannel .. | .commitmentProof _
  | .cancellationProof _ | .broadcast _ | .provenOffer _ | .payment _ | .channelStatus _ | .timer _
  | .startListener | .serveCommitmentService _ | .serveRaidenListener => .isTrue trivial

structure ExecutionInv (h : List App.Input) (a : App) : Prop where
  paired : Paired a.node
  listening : ∀ e ∈ a.raidenListenerEvents, Expected a.node e ∨
    ∃ p ∈ paymentsReceived h, e = .paymentReceived p
  filtering : ∀ i id, EventFilter.transferReceived i id ∈ a.eventFilters → Awaited a.node i id
  reporting : ∀ r e, CommitmentServiceEvent.receivedInbound r e ∈ a.commitmentServiceEvents →
    Reported a.node r
  queued : ∀ e, StateChange.transferReceived e ∈ a.stateChanges →
    Awaited a.node e.initiator e.identifier ∧ e ∈ paymentsReceived h

namespace ExecutionInv

variable {C : Crypto} {h : List App.Input} {a : App} {i : App.Input}

theorem init (market : TokenPair) (commitmentServiceAddress : Address) :
    ExecutionInv [] (.init market commitmentServiceAddress) where
  paired := .init market
  listening := by simp [App.init, Expected]
  filtering := by simp [App.init]
  reporting := by simp [App.init]
  queued := by simp [App.init]

theorem paymentsReceived_concat (h : List App.Input) (i : App.Input) :
    paymentsReceived (h ++ [i]) = paymentsReceived h ++ paymentsReceived [i] :=
  List.filterMap_append

/-- A step that keeps what is known of the node keeps what is known of the queues. -/
theorem step (hinv : ExecutionInv h a) (hpaired : Paired (a.step C i).node)
    (hkeeps : Keeps a.node (a.step C i).node) : ExecutionInv (h ++ [i]) (a.step C i) := by
  have hmono {p : PaymentReceivedEvent} (hp : p ∈ paymentsReceived h) :
      p ∈ paymentsReceived (h ++ [i]) := by
    rw [paymentsReceived_concat]; exact List.mem_append_left _ hp
  have hawaited {e : RaidenListenerEvent} (he : e ∈ a.raidenListenerEvents) :
      Expected a.node e ∨ ∃ p ∈ paymentsReceived h, e = .paymentReceived p := hinv.listening e he
  refine ⟨hpaired, ?_, ?_, ?_, ?_⟩
  · intro e he
    rcases App.raidenListenerEvents_step he with he | he | ⟨r, p, o, hr, ho, rfl⟩ |
      ⟨p, rfl, rfl⟩ | ⟨raw, rfl⟩
    · rcases hawaited he with he | ⟨p, hp, rfl⟩
      · exact .inl (hkeeps.expected he)
      · exact .inr ⟨p, hmono hp, rfl⟩
    · exact .inl (hpaired.expected e he)
    · obtain ⟨m, o', ho', hm, hr', he⟩ := hinv.reporting r p hr
      cases ho.symm.trans ho'
      exact .inl (hkeeps.awaited _ _ ⟨m, r, o, hm, hr', ho, .inr he⟩)
    · refine .inr ⟨p, ?_, rfl⟩
      rw [paymentsReceived_concat]
      exact List.mem_append_right _ (List.mem_singleton_self p)
    · exact .inl trivial
  · intro initiator id hf
    rcases App.eventFilters_step hf with hf | hf
    · exact hkeeps.awaited _ _ (hinv.filtering initiator id hf)
    · rcases hawaited hf with hf | ⟨p, -, hf⟩
      · exact hkeeps.awaited _ _ hf
      · cases hf
  · intro r e he
    rcases App.commitmentServiceEvents_step he with he | he
    · exact hkeeps.reported r (hinv.reporting r e he)
    · exact hpaired.reported r e he
  · intro e he
    rcases App.stateChanges_step he with he | ⟨rfl, hmem, hf⟩
    · exact ⟨hkeeps.awaited _ _ (hinv.queued e he).1, hmono (hinv.queued e he).2⟩
    · refine ⟨hkeeps.awaited _ _ (hinv.filtering _ _ hf), ?_⟩
      rcases hawaited hmem with hmem | ⟨p, hp, hmem⟩
      · exact hmem.elim
      · cases hmem
        exact hmono hp

end ExecutionInv

section

variable {C : Crypto} {market : TokenPair} {commitmentServiceAddress : Address}

theorem executionInv_step {h : List App.Input} {a : App} {i : App.Input}
    (hinv : a.running = true → ExecutionInv h a) (hi : a.Agreed i) :
    (a.step C i).running = true → ExecutionInv (h ++ [i]) (a.step C i) := by
  intro hrun
  rcases a.step_cases C i with ⟨hquiet, hrun'⟩ | ⟨env, sc, rest, rfl, hrunning, hq, hnode, hrun'⟩
  · have hinv := hinv (hrun' ▸ hrun)
    exact hinv.step (hinv.paired.quiet hquiet)
      (.of_advances (.of_eq hquiet.offers) fun _ _ hm => hquiet.matchesById ▸ hm)
  have hinv := hinv hrunning
  have hfresh : FreshIds env a.node sc := (hi hrunning sc (by rw [hq]; rfl)).2
  have hproceeds :
      EStateM.Proceeds (Effect True sc) (Broken sc) (handleStateChange env sc) a.node :=
    handleStateChange_proceeds fun _ => hfresh
  obtain ⟨hpaired, hkeeps⟩ := hproceeds.keeps (P := fun s => Paired s ∧ Keeps a.node s)
    ⟨hinv.paired, .refl _⟩ (fun s s' heff hP => ⟨(hP.1.effect heff).1,
      hP.2.trans (hP.1.effect heff).2⟩) (hrun' ▸ hrun)
  exact hinv.step (hnode ▸ hpaired) (hnode ▸ hkeeps)

/-- In a run in which the node acts on agreed payments only and its orders register unknown ids,
an offer leaves the state in which it exchanges only after the payment of its match that is owed. -/
theorem execution_backed (C : Crypto) (market : TokenPair) (commitmentServiceAddress : Address)
    (is : List App.Input) (i : App.Input)
    (h : LTS.AllSteps (App.step C) App.Agreed (.init market commitmentServiceAddress) (is ++ [i]))
    (r : OfferRef) (o o' : Offer)
    (ho : (App.run C market commitmentServiceAddress is).node.offers[r]? = some o)
    (hstate : o.state = .pendingExchanging)
    (ho' : (App.run C market commitmentServiceAddress (is ++ [i])).node.offers[r]? = some o')
    (hstate' : o'.state ≠ .pendingExchanging) :
    ∃ m, (App.run C market commitmentServiceAddress is).node.matchesById.lookup o.offerId =
        some m ∧ m.offer = some r ∧ ∃ p ∈ paymentsReceived is, p.initiator = m.target ∧
      p.identifier = o.offerId ∧ (m.getOwedAmount o).le p.amount = true := by
  obtain ⟨hpre, hi⟩ := LTS.allSteps_concat.mp h
  have hinv := LTS.run_invariant_of_guard (App.step C) App.Agreed
    (fun h a => a.running = true → ExecutionInv h a)
    (fun _ => .init market commitmentServiceAddress)
    (fun _ _ _ hinv hi => executionInv_step hinv hi) is hpre
  have hrun : App.run C market commitmentServiceAddress (is ++ [i]) =
      (App.run C market commitmentServiceAddress is).step C i := LTS.run_concat ..
  have hi : (App.run C market commitmentServiceAddress is).Agreed i := hi
  have hinv : (App.run C market commitmentServiceAddress is).running = true →
      ExecutionInv is (App.run C market commitmentServiceAddress is) := hinv
  rw [hrun] at ho'
  generalize App.run C market commitmentServiceAddress is = a at ho ho' hi hinv ⊢
  -- the offer is another one only after the consumer handled a state change
  rcases a.step_cases C i with ⟨hquiet, -⟩ | ⟨env, sc, rest, rfl, hrunning, hq, hnode, -⟩
  · rw [hquiet.offers, ho] at ho'
    cases ho'
    exact absurd hstate hstate'
  have hinv := hinv hrunning
  rw [hnode] at ho'
  obtain ⟨e, m, rfl, hm, hr⟩ := leaves_exchanging ho hstate ho' hstate'
  have hid := (hinv.paired.match_offer hm hr ho).2.1
  obtain ⟨⟨m', r', o'', hm', hr', ho'', htarget⟩, hpayment⟩ :=
    hinv.queued e (by rw [hq]; exact List.mem_cons_self ..)
  cases hm.symm.trans hm'
  cases hr.symm.trans hr'
  cases ho.symm.trans ho''
  have hinitiator : e.initiator = m.target :=
    htarget.resolve_right fun hex => by rw [hstate] at hex; cases hex
  have hcovers := (hi hrunning (.transferReceived e) (by rw [hq]; rfl)).1 m hm r hr o ho hstate
  exact ⟨m, hid ▸ hm, hr, e, hpayment, hinitiator, hid.symm, hcovers⟩

/-- The node takes an offer of address `4` for `5`, and `4` pays this amount. -/
def exchangingRun (amount : Int) : List App.Input :=
  let proof : CommitmentProof := { commitmentSig := none, secret := 3, secretHash := 3,
                                   offerId := 7, signature := some 9 }
  let env : Env := { now := 0, orderUuid := 1, offerUuid := 2 }
  [.broadcast { offer := { offerId := 7, askToken := 1, askAmount := 5, bidToken := 2,
                           bidAmount := 5, timeout := 100 },
                commitmentProof := proof, signature := some 4 },
   .handle env, .postLimitOrder 1 "SELL" (.int 5) (Float.Model.ofInt 1), .handle env,
   .commitmentProof proof, .handle env, .serveRaidenListener, .serveRaidenListener,
   .payment { initiator := 4, amount := .int amount, identifier := 7 }, .serveRaidenListener]

/-- The offer of the node in `exchangingRun`. -/
def takenOffer (state : OfferState) : Offer where
  offerId := 7
  type := .buy
  baseAmount := .int 5
  quoteAmount := .int 5
  timeoutDate := 100
  traderRole := .taker
  proof := some { commitmentSig := none, secret := 3, secretHash := 3, offerId := 7,
                  signature := some 9 }
  isModel := true
  state := state

theorem full_payment_backed : ∃ m, (App.run .plain { baseToken := 1, quoteToken := 2 } 9
      (exchangingRun 5)).node.matchesById.lookup (takenOffer .pendingExchanging).offerId = some m ∧
    m.offer = some 0 ∧ ∃ p ∈ paymentsReceived (exchangingRun 5), p.initiator = m.target ∧
      p.identifier = (takenOffer .pendingExchanging).offerId ∧
      (m.getOwedAmount (takenOffer .pendingExchanging)).le p.amount = true :=
  execution_backed .plain { baseToken := 1, quoteToken := 2 } 9 (exchangingRun 5)
    (.handle { now := 0, orderUuid := 1, offerUuid := 2 }) (by decide +kernel) 0
    (takenOffer .pendingExchanging) (takenOffer .pendingWaitForRefund) (by decide +kernel) rfl
    (by decide +kernel) nofun

/-- A payment of `0` is enough. -/
theorem nothing_paid_executed :
    (App.run .plain { baseToken := 1, quoteToken := 2 } 9 (exchangingRun 0)).node.offers[0]? =
      some (takenOffer .pendingExchanging) ∧
    (App.run .plain { baseToken := 1, quoteToken := 2 } 9 (exchangingRun 0 ++
      [.handle { now := 0, orderUuid := 1, offerUuid := 2 }])).node.offers[0]? =
      some (takenOffer .pendingWaitForRefund) ∧
    ∀ p ∈ paymentsReceived (exchangingRun 0), ∀ role proof, Number.le
      (Match.getOwedAmount { offer := some 0, traderRole := role, target := 4,
                             commitmentProof := proof } (takenOffer .pendingExchanging))
      p.amount = false := by
  refine ⟨by decide +kernel, by decide +kernel, ?_⟩
  intro p hp role proof
  obtain rfl := List.mem_singleton.mp hp
  cases role <;> rfl

end

end RaidexNode
end Raidex
