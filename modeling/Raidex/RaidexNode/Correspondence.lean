import Raidex.RaidexNode.Conversations

/-!
# Raidex.RaidexNode.Correspondence

What the commitment service and the trader get to hear of an offer.

The events of a node for the commitment service wait in the queue of its client, which turns them
into messages for the transport and deposits for the trader.

* `Relays`: transport and trader have exactly what the client made of the events it has handled.
* `FiledById`: an offer is filed under its id, so that an id stands for one offer.
* `offers_conversed`: in every run, every offer gets at most one deposit and at most one payment;
  its execution is reported at most once and only after the payment; it is never both reported as
  executed and requested to be cancelled.
-/

namespace Raidex
namespace RaidexNode

/-! ## Messages for the commitment service -/

inductive Note where
  | commitment (offer : OfferRef)
  | executed (offerId : Nat)
  | cancellation (offerId : Nat)
  deriving DecidableEq

def TransportEvent.note? : TransportEvent → Option Note
  | .sendProvenOffer .. => none
  | .commitment _ r _ => some (.commitment r)
  | .cancellation _ offerId => some (.cancellation offerId)
  | .sendExecuted _ offerId _ => some (.executed offerId)

/-- The message that the client makes of an event. -/
def CommitmentServiceEvent.note? (s : Node) : CommitmentServiceEvent → Option Note
  | .commit r => s.offers[r]?.map fun _ => .commitment r
  | .commitmentProved _ => none
  | .receivedInbound r _ => s.offers[r]?.map fun o => .executed o.offerId
  | .cancellationRequest r => s.offers[r]?.map fun o => .cancellation o.offerId

/-- The target, the amount and the identifier of a transfer. -/
def TraderEvent.deposit? : TraderEvent → Option (Address × Nat × Nat)
  | .transfer target amount identifier => some (target, amount, identifier)
  | _ => none

def CommitmentServiceEvent.deposit? (service : Address) (s : Node) :
    CommitmentServiceEvent → Option (Address × Nat × Nat)
  | .commit r => s.offers[r]?.map fun o => (service, commitmentAmount, o.offerId)
  | _ => none

def TraderEvent.match? : TraderEvent → Option Match
  | .swapInit m => some m
  | _ => none

def Event.match? (e : Event) : Option Match := e.toTrader? >>= TraderEvent.match?

/-- The client has handled `done`. -/
structure Relays (done : List CommitmentServiceEvent) (a : App) : Prop where
  served : a.node.events.filterMap Event.toCommitmentService? = done ++ a.commitmentServiceEvents
  notes : a.transportEvents.filterMap TransportEvent.note? =
    done.filterMap (CommitmentServiceEvent.note? a.node)
  deposits : a.traderEvents.filterMap TraderEvent.deposit? =
    done.filterMap (CommitmentServiceEvent.deposit? a.commitmentServiceAddress a.node)
  payments : a.traderEvents.filterMap TraderEvent.match? = a.node.events.filterMap Event.match?

section

variable {s s' : Node} {a b : App} {done : List CommitmentServiceEvent} {C : Crypto}
  {i : App.Input} {e : CommitmentServiceEvent}

/-- What is said of is an offer of the node. -/
theorem Talks.known_of_mem (hs : Talks s) (h : Event.commitmentService e ∈ s.events) :
    ∃ o, s.offers[e.offer]? = some o := by
  cases ho : s.offers[e.offer]? with
  | some o => exact ⟨o, rfl⟩
  | none =>
    have hsaid : Event.commitmentService e ∈ s.said e.offer :=
      List.mem_filter.mpr ⟨h, decide_eq_true rfl⟩
    rw [hs.unknown e.offer ho] at hsaid
    cases hsaid

theorem Relays.known (h : Relays done a) (hs : Talks a.node) :
    ∀ e ∈ done ++ a.commitmentServiceEvents, ∃ o, a.node.offers[e.offer]? = some o := by
  intro e he
  rw [← h.served, List.mem_filterMap] at he
  obtain ⟨ev, hev, heq⟩ := he
  cases ev <;> cases heq
  exact hs.known_of_mem hev

/-- What an event is turned into does not change later. -/
theorem note?_advances (hadv : s.Advances s') {o : Offer} (ho : s.offers[e.offer]? = some o) :
    e.note? s' = e.note? s := by
  obtain ⟨o', ho', hlater⟩ := hadv _ o ho
  cases e <;> simp only [CommitmentServiceEvent.offer] at ho ho' <;>
    simp [CommitmentServiceEvent.note?, ho, ho', hlater.offerId]

theorem deposit?_advances (hadv : s.Advances s') {o : Offer} (ho : s.offers[e.offer]? = some o)
    (service : Address) : e.deposit? service s' = e.deposit? service s := by
  obtain ⟨o', ho', hlater⟩ := hadv _ o ho
  cases e <;> simp only [CommitmentServiceEvent.offer] at ho ho' <;>
    simp [CommitmentServiceEvent.deposit?, ho, ho', hlater.offerId]

/-! ## Steps -/

/-- All that concerns the commitment service and payments is as before. -/
structure SameTalk (a b : App) : Prop where
  service : b.commitmentServiceAddress = a.commitmentServiceAddress
  offers : b.node.offers = a.node.offers
  events : b.node.events = a.node.events
  commitmentServiceEvents : b.commitmentServiceEvents = a.commitmentServiceEvents
  transportEvents : b.transportEvents = a.transportEvents
  traderEvents : b.traderEvents = a.traderEvents

theorem SameTalk.refl (a : App) : SameTalk a a := ⟨rfl, rfl, rfl, rfl, rfl, rfl⟩

theorem SameTalk.relays (h : SameTalk a b) (hr : Relays done a) : Relays done b := by
  obtain ⟨hservice, hoffers, hevents, hqueue, htransport, htrader⟩ := h
  have hnote : CommitmentServiceEvent.note? b.node = CommitmentServiceEvent.note? a.node := by
    funext e
    cases e <;> simp only [CommitmentServiceEvent.note?, hoffers]
  have hdeposit : CommitmentServiceEvent.deposit? b.commitmentServiceAddress b.node =
      CommitmentServiceEvent.deposit? a.commitmentServiceAddress a.node := by
    funext e
    cases e <;> simp only [CommitmentServiceEvent.deposit?, hoffers, hservice]
  refine ⟨?_, ?_, ?_, ?_⟩
  · rw [hevents, hqueue, hr.served]
  · rw [htransport, hnote, hr.notes]
  · rw [htrader, hdeposit, hr.deposits]
  · rw [htrader, hevents, hr.payments]

theorem step_sameTalk (hhandle : ∀ env, i ≠ .handle env)
    (hserve : ∀ now, i ≠ .serveCommitmentService now) : SameTalk a (a.step C i) := by
  cases i with
  | handle env => exact absurd rfl (hhandle env)
  | serveCommitmentService now => exact absurd rfl (hserve now)
  | makeChannel | commitmentProof | cancellationProof => exact ⟨rfl, rfl, rfl, rfl, rfl, rfl⟩
  | postLimitOrder uuid orderType amount price =>
    simp only [App.step, App.postLimitOrder]
    split <;> exact ⟨rfl, rfl, rfl, rfl, rfl, rfl⟩
  | deleteLimitOrder orderId =>
    simp only [App.step, App.deleteLimitOrder]
    repeat' split
    all_goals exact ⟨rfl, rfl, rfl, rfl, rfl, rfl⟩
  | broadcast m =>
    simp only [App.step, App.receiveBroadcast]
    split <;> exact ⟨rfl, rfl, rfl, rfl, rfl, rfl⟩
  | provenOffer m =>
    simp only [App.step, App.receiveProvenOffer]
    split <;> exact ⟨rfl, rfl, rfl, rfl, rfl, rfl⟩
  | payment p =>
    simp only [App.step, App.poll]
    split
    · exact .refl a
    · exact ⟨rfl, rfl, rfl, List.append_nil _, List.append_nil _, List.append_nil _⟩
  | channelStatus raw =>
    exact ⟨rfl, rfl, rfl, List.append_nil _, List.append_nil _, List.append_nil _⟩
  | timer offerId =>
    simp only [App.step, App.fireTimer]
    repeat' split
    all_goals exact ⟨rfl, rfl, rfl, rfl, rfl, rfl⟩
  | startListener =>
    simp only [App.step, App.startListener]
    split <;> exact ⟨rfl, rfl, rfl, rfl, rfl, rfl⟩
  | serveRaidenListener =>
    simp only [App.step, App.serveRaidenListener]
    split
    · exact .refl a
    · split <;> exact ⟨rfl, rfl, rfl, rfl, rfl, rfl⟩

/-- The client handles its next event. -/
theorem Relays.serve (hr : Relays done a) (hs : Talks a.node) (now : Nat) :
    ∃ done', Relays done' (a.serveCommitmentService now) := by
  unfold App.serveCommitmentService
  cases hq : a.commitmentServiceEvents with
  | nil => exact ⟨done, hr⟩
  | cons e rest =>
    refine ⟨done ++ [e], ?_⟩
    have hserved : a.node.events.filterMap Event.toCommitmentService? = done ++ [e] ++ rest := by
      rw [hr.served, hq, List.append_assoc, List.singleton_append]
    obtain ⟨o, ho⟩ := hr.known hs e (by rw [hq]; simp)
    obtain ⟨-, hnotes, hdeposits, hpayments⟩ := hr
    cases e <;> simp only [CommitmentServiceEvent.offer] at ho <;>
      simp only [App.handleCommitmentServiceEvent, ho]
    all_goals
      refine ⟨?_, ?_, ?_, ?_⟩
      · simpa [App.dispatch, Event.toCommitmentService?, List.filterMap_cons] using hserved
      · simp [App.dispatch, Event.toTransport?, TransportEvent.note?, hnotes,
          CommitmentServiceEvent.note?, ho, List.filterMap_cons]
      · simp [App.dispatch, Event.toTrader?, TraderEvent.deposit?, hdeposits,
          CommitmentServiceEvent.deposit?, ho, List.filterMap_cons]
      · simpa [App.dispatch, Event.toTrader?, TraderEvent.match?, List.filterMap_cons]
          using hpayments

theorem filterMap_note?_ofNode {es : List Event}
    (h : ∀ e ∈ es, e.ofNode = true ∨ e = .raidenListener .channelFilter) :
    (es.filterMap Event.toTransport?).filterMap TransportEvent.note? = [] ∧
      (es.filterMap Event.toTrader?).filterMap TraderEvent.deposit? = [] := by
  rw [List.filterMap_filterMap, List.filterMap_filterMap]
  refine ⟨List.filterMap_eq_nil_iff.mpr ?_, List.filterMap_eq_nil_iff.mpr ?_⟩
  all_goals
    intro e he
    rcases h e he with h | rfl
    · cases e with
      | transport e => cases e <;> first | rfl | cases h
      | trader e => cases e <;> first | rfl | cases h
      | commitmentService | raidenListener => rfl
    · rfl

/-- The node dispatches more events. -/
theorem Relays.handle (hr : Relays done a) (hs : Talks a.node) {env : Env} {sc : StateChange}
    {rest : List StateChange} (hrun : a.running = true) (hq : a.stateChanges = sc :: rest) :
    Relays done (a.handle env) := by
  obtain ⟨es, hes, hnode⟩ := handleStateChange_dispatches env sc a.node
  obtain ⟨hnone, hnone'⟩ := filterMap_note?_ofNode hnode
  have hadv : a.node.Advances ((handleStateChange env sc).run a.node).state :=
    (handled_proceeds env sc a.node).invariant (.of_eq rfl)
      (fun _ _ heff hP => hP.trans heff.advances) (fun _ _ hb hP => hP.trans hb.advances)
      fun _ hP => hP
  have hknown (e : CommitmentServiceEvent) (he : e ∈ done) :
      ∃ o, a.node.offers[e.offer]? = some o := hr.known hs e (List.mem_append_left _ he)
  obtain ⟨hserved, hnotes, hdeposits, hpayments⟩ := hr
  rw [App.handle_cons hrun hq, hes, List.drop_left]
  refine ⟨?_, ?_, ?_, ?_⟩
  · simp only [App.dispatch, hes, List.filterMap_append, hserved, List.append_assoc]
  · simp only [App.dispatch, List.filterMap_append, hnone, List.append_nil, hnotes]
    refine List.filterMap_congr fun e he => ?_
    obtain ⟨o, ho⟩ := hknown e he
    exact (note?_advances hadv ho).symm
  · simp only [App.dispatch, List.filterMap_append, hnone', List.append_nil, hdeposits]
    refine List.filterMap_congr fun e he => ?_
    obtain ⟨o, ho⟩ := hknown e he
    exact (deposit?_advances hadv ho _).symm
  · simp only [App.dispatch, hes, List.filterMap_append, hpayments, List.filterMap_filterMap]
    rfl

/-! ## Ids -/

/-- Every offer is filed under its id. -/
def FiledById (s : Node) : Prop :=
  ∀ (r : OfferRef) o, s.offers[r]? = some o → s.getOffer o.offerId = some r

namespace FiledById

variable {r r' : OfferRef} {o o' : Offer} {t : OfferTrigger} {d : OfferState} {k : OfferKwargs}
  {sc : StateChange}

theorem unique (hs : FiledById s) (ho : s.offers[r]? = some o) (ho' : s.offers[r']? = some o')
    (hid : o'.offerId = o.offerId) : r' = r := by
  have h := hs r' o' ho'
  rw [hid, hs r o ho] at h
  exact (Option.some.inj h).symm

theorem of_eq (hs : FiledById s) (hoffers : s'.offers = s.offers)
    (hmanager : s'.offerManager = s.offerManager) : FiledById s' := by
  intro r o ho
  rw [hoffers] at ho
  rw [Node.getOffer, hmanager]
  exact hs r o ho

theorem created (hs : FiledById s) {b : BasicOffer Number} (role : TraderRole)
    (hfresh : s.hasOffer b.offerId = false) : FiledById (s.created b role) := by
  intro r o ho
  rcases created_cases ho with ho | ⟨rfl, rfl⟩
  · have hget := hs r o ho
    have hne : o.offerId ≠ b.offerId := by
      intro heq
      have hnone : s.getOffer b.offerId = none :=
        AList.lookup_eq_none.mpr (of_decide_eq_false hfresh)
      rw [heq, hnone] at hget
      cases hget
    exact (AList.lookup_insert_ne hne).trans hget
  · exact AList.lookup_insert ..

theorem entered (hs : FiledById s) (ho : s.offers[r]? = some o) :
    FiledById (s.entered r o d k) := by
  intro r' o' ho'
  rcases entered_cases ho' with ⟨rfl, rfl⟩ | ⟨-, ho'⟩
  · exact hs _ o ho
  · exact hs r' o' ho'

theorem effect (hs : FiledById s) (h : Effect True sc s s') : FiledById s' := by
  cases h with
  | quiet h => exact hs.of_eq h.offers h.offerManager
  | created data b role hfresh => exact hs.created role (hfresh trivial)
  | taken data e hfresh => exact (hs.created .taker (hfresh trivial)).of_eq rfl rfl
  | entered ho => exact hs.entered ho
  | provedMatched p hr ho hmodel hstate hm hr' ho' =>
    exact of_eq ((hs.entered ho).entered ho') rfl rfl
  | called offerId initiator p hr ho => exact of_eq (hs.entered ho) rfl rfl
  | completed e hm hr ho => exact of_eq (hs.entered ho) rfl rfl

theorem broken (hs : FiledById s) (h : Broken sc s s') : FiledById s' := by
  cases h with
  | unmatched p hr ho => exact hs.entered ho
  | called => exact hs.of_eq rfl rfl
  | unremoved e hm hr ho => exact of_eq (hs.entered ho) rfl rfl

end FiledById

/-! ## Runs -/

/-- Limit orders register ids that the node does not know. -/
def App.Registers (a : App) : App.Input → Prop
  | .handle env => a.running = true → ∀ sc ∈ a.stateChanges.head?, FreshIds env a.node sc
  | _ => True

instance (a : App) (i : App.Input) : Decidable (a.Registers i) :=
  match i with
  | .handle _ => inferInstanceAs (Decidable (_ → ∀ _ ∈ _, _))
  | .postLimitOrder .. | .deleteLimitOrder .. | .makeChannel .. | .commitmentProof _
  | .cancellationProof _ | .broadcast _ | .provenOffer _ | .payment _ | .channelStatus _ | .timer _
  | .startListener | .serveCommitmentService _ | .serveRaidenListener => .isTrue trivial

structure Corresponds (a : App) : Prop where
  initiated : a.running = true → Initiated a.node
  talks : Talks a.node
  filed : FiledById a.node
  relays : ∃ done, Relays done a

namespace Corresponds

theorem init (market : TokenPair) (commitmentServiceAddress : Address) :
    Corresponds (.init market commitmentServiceAddress) where
  initiated _ := .init market
  talks := .init market
  filed := by simp [FiledById, App.init, Node.init]
  relays := ⟨[], rfl, rfl, rfl, rfl⟩

theorem step (hs : Corresponds a) (hi : a.Registers i) : Corresponds (a.step C i) := by
  obtain ⟨done, hrelays⟩ := hs.relays
  rcases a.step_cases C i with ⟨hquiet, hrun'⟩ | ⟨env, sc, rest, rfl, hrun, hq, hnode, hrun'⟩
  · refine ⟨fun h => (hs.initiated (hrun' ▸ h)).of_eq hquiet.offers, hs.talks.quiet hquiet,
      hs.filed.of_eq hquiet.offers hquiet.offerManager, ?_⟩
    by_cases hserve : ∃ now, i = .serveCommitmentService now
    · obtain ⟨now, rfl⟩ := hserve
      exact hrelays.serve hs.talks now
    by_cases hhandle : ∃ env, i = .handle env
    · obtain ⟨env, rfl⟩ := hhandle
      rcases App.handle_cases a env with ⟨heq, -⟩ | ⟨sc, rest, hrun, hq⟩
      · rw [App.step, heq]
        exact hs.relays
      · exact ⟨done, hrelays.handle hs.talks hrun hq⟩
    · refine ⟨done, SameTalk.relays (step_sameTalk ?_ ?_) hrelays⟩
      · exact fun env h => hhandle ⟨env, h⟩
      · exact fun now h => hserve ⟨now, h⟩
  · have hinit := hs.initiated hrun
    have hfresh : FreshIds env a.node sc := hi hrun sc (by rw [hq]; rfl)
    refine ⟨fun h => hnode ▸ hinit.handled (hrun' ▸ h), hnode ▸ hs.talks.handled hinit, ?_,
      done, hrelays.handle hs.talks hrun hq⟩
    rw [hnode]
    exact (handleStateChange_proceeds fun _ : True => hfresh).invariant hs.filed
      (fun _ _ heff hP => hP.effect heff) (fun _ _ hb hP => hP.broken hb) fun _ hP => hP

end Corresponds

end

/-! ## What is heard of an offer -/

/-- The message is about the offer at `r`, whose id is `offerId`. -/
def Note.about (r : OfferRef) (offerId : Nat) : Note → Bool
  | .commitment r' => r' = r
  | .executed offerId' | .cancellation offerId' => offerId' = offerId

namespace App

/-- The messages to the commitment service about an offer. -/
def notes (a : App) (r : OfferRef) (offerId : Nat) : List Note :=
  (a.transportEvents.filterMap TransportEvent.note?).filter (Note.about r offerId)

def deposits (a : App) (offerId : Nat) : List (Address × Nat × Nat) :=
  (a.traderEvents.filterMap TraderEvent.deposit?).filter fun x => x.2.2 = offerId

def payments (a : App) (r : OfferRef) : List Match :=
  (a.traderEvents.filterMap TraderEvent.match?).filter fun m => m.offer = some r

end App

/-- The node has asked to cancel the offer, or knows it to be canceled. -/
def OfferState.withdrawn (s : OfferState) : Bool :=
  s = .openCancellationRequested || s = .canceled

section

variable {s : Node} {r : OfferRef} {o : Offer} {st : OfferState} {es : List Event}
  {p : List CommitmentServiceEvent}

/-- What the client makes of the events about an offer, the first ones. -/
inductive Notes (r : OfferRef) (offerId : Nat) (st : OfferState) : List Note → Prop where
  | silent : Notes r offerId st []
  | committed : Notes r offerId st [.commitment r]
  | executed (h : st.executed = true) :
      Notes r offerId st [.commitment r, .executed offerId]
  | withdrawn {n : Nat} (h : st.withdrawn = true) :
      Notes r offerId st (.commitment r :: List.replicate n (.cancellation offerId))

/-- What follows the commitment. -/
theorem Conversation.events (h : Conversation r st es) :
    es.filterMap Event.toCommitmentService? = [] ∨
    ∃ later rest, es.filterMap Event.toCommitmentService? = .commit r :: (later ++ rest) ∧
      (later = [] ∨ later = [.commitmentProved r]) ∧
      (rest = [] ∨ (st.executed = true ∧ ∃ e, rest = [.receivedInbound r e]) ∨
        st.withdrawn = true ∧ ∃ n, rest = List.replicate n (.cancellationRequest r)) := by
  have hopening {es : List Event} (h : Opening r es) : ∃ later,
      es.filterMap Event.toCommitmentService? = .commit r :: later ∧
        (later = [] ∨ later = [.commitmentProved r]) := by
    cases h with
    | committed => exact ⟨[], rfl, .inl rfl⟩
    | published => exact ⟨_, rfl, .inr rfl⟩
  cases h with
  | created => exact .inl rfl
  | committed => exact .inr ⟨[], [], rfl, .inl rfl, .inl rfl⟩
  | published => exact .inr ⟨_, [], rfl, .inr rfl, .inl rfl⟩
  | exchanging h hm =>
    obtain ⟨later, heq, hlater⟩ := hopening h
    exact .inr ⟨later, [], by rw [List.filterMap_append, heq]; rfl, hlater, .inl rfl⟩
  | @executed _ _ _ e h hm hst =>
    obtain ⟨later, heq, hlater⟩ := hopening h
    refine .inr ⟨later, [.receivedInbound r e], ?_, hlater, .inr (.inl ⟨hst, e, rfl⟩)⟩
    rw [List.filterMap_append, heq]
    rfl
  | @withdrawn _ _ n h hst =>
    obtain ⟨later, heq, hlater⟩ := hopening h
    refine .inr ⟨later, _, ?_, hlater, .inr (.inr ⟨?_, n, rfl⟩)⟩
    · rw [List.filterMap_append, heq, List.filterMap_replicate]
      rfl
    · rcases hst with rfl | rfl <;> rfl

/-- What the client makes of the first events about an offer. -/
theorem Conversation.handled (h : Conversation r st es) (ho : s.offers[r]? = some o)
    (hp : p <+: es.filterMap Event.toCommitmentService?) (service : Address) :
    Notes r o.offerId st (p.filterMap (CommitmentServiceEvent.note? s)) ∧
      p.filterMap (CommitmentServiceEvent.deposit? service s) =
        if p.filterMap (CommitmentServiceEvent.note? s) = [] then []
        else [(service, commitmentAmount, o.offerId)] := by
  cases p with
  | nil => exact ⟨.silent, rfl⟩
  | cons e p =>
  rcases h.events with hnil | ⟨later, rest, heq, hlater, hrest⟩
  · rw [hnil] at hp
    exact absurd (List.prefix_nil.mp hp) (List.cons_ne_nil _ _)
  rw [heq, List.cons_prefix_cons] at hp
  obtain ⟨rfl, hp⟩ := hp
  have hnote : CommitmentServiceEvent.note? s (.commit r) = some (.commitment r) := by
    simp [CommitmentServiceEvent.note?, ho]
  have hdeposit : CommitmentServiceEvent.deposit? service s (.commit r) =
      some (service, commitmentAmount, o.offerId) := by
    simp [CommitmentServiceEvent.deposit?, ho]
  have hnone : ∀ e ∈ later ++ rest, e.deposit? service s = none := by
    intro e he
    rcases List.mem_append.mp he with he | he
    · rcases hlater with rfl | rfl
      · cases he
      · rw [List.mem_singleton.mp he]
        rfl
    · rcases hrest with rfl | ⟨-, e', rfl⟩ | ⟨-, n, rfl⟩
      · cases he
      · rw [List.mem_singleton.mp he]
        rfl
      · rw [List.eq_of_mem_replicate he]
        rfl
  have hsilent : later.filterMap (CommitmentServiceEvent.note? s) = [] := by
    rcases hlater with rfl | rfl <;> rfl
  have hpre := hp.filterMap (CommitmentServiceEvent.note? s)
  rw [List.filterMap_append, hsilent, List.nil_append] at hpre
  rw [List.filterMap_cons_some hnote, List.filterMap_cons_some hdeposit,
    List.filterMap_eq_nil_iff.mpr fun e he => hnone e (hp.subset he), if_neg (List.cons_ne_nil _ _)]
  refine ⟨?_, rfl⟩
  generalize p.filterMap (CommitmentServiceEvent.note? s) = ns at hpre
  rcases hrest with rfl | ⟨hst, e', rfl⟩ | ⟨hst, n, rfl⟩
  · rw [List.prefix_nil.mp hpre]
    exact .committed
  · have hone : [CommitmentServiceEvent.receivedInbound r e'].filterMap
        (CommitmentServiceEvent.note? s) = [.executed o.offerId] := by
      simp [CommitmentServiceEvent.note?, ho]
    rw [hone, List.prefix_cons_iff] at hpre
    rcases hpre with rfl | ⟨ns', rfl, hns⟩
    · exact .committed
    · rw [List.prefix_nil.mp hns]
      exact .executed hst
  · have hmany : (List.replicate n (CommitmentServiceEvent.cancellationRequest r)).filterMap
        (CommitmentServiceEvent.note? s) = List.replicate n (.cancellation o.offerId) := by
      rw [List.filterMap_replicate]
      simp [CommitmentServiceEvent.note?, ho]
    rw [hmany] at hpre
    obtain ⟨-, hns⟩ := List.prefix_replicate_iff.mp hpre
    rw [hns]
    exact .withdrawn hst

theorem Conversation.payments (h : Conversation r st es) :
    (es.filterMap Event.match?).length = if st.engaged = true then 1 else 0 := by
  have hopening {es : List Event} (h : Opening r es) : es.filterMap Event.match? = [] := by
    cases h <;> rfl
  cases h with
  | created | published => rfl
  | committed h => rcases h with rfl | rfl <;> rfl
  | exchanging h hm =>
    rw [List.filterMap_append, hopening h]
    rfl
  | executed h hm hst =>
    have hengaged : st.engaged = true := by cases st <;> first | rfl | cases hst
    rw [List.filterMap_append, hopening h, if_pos hengaged]
    rfl
  | @withdrawn _ _ n h hst =>
    have hnone : (List.replicate n (Event.commitmentService (.cancellationRequest r))).filterMap
        Event.match? = [] := by
      rw [List.filterMap_replicate]
      rfl
    rw [List.filterMap_append, hopening h, hnone]
    rcases hst with rfl | rfl <;> rfl

end

/-- What is said and heard of the offer `o` at `r`. -/
structure Conversed (a : App) (r : OfferRef) (o : Offer) : Prop where
  said : Conversation r o.state (a.node.said r)
  notes : Notes r o.offerId o.state (a.notes r o.offerId)
  deposits : a.deposits o.offerId = if a.notes r o.offerId = [] then []
    else [(a.commitmentServiceAddress, commitmentAmount, o.offerId)]
  payments : (a.payments r).length = if o.state.engaged = true then 1 else 0

namespace Corresponds

variable {a : App} {r : OfferRef} {o : Offer}

theorem notes_eq (hs : Corresponds a) {done : List CommitmentServiceEvent} (h : Relays done a)
    (ho : a.node.offers[r]? = some o) : a.notes r o.offerId =
      (done.filter fun e => e.offer = r).filterMap (CommitmentServiceEvent.note? a.node) := by
  rw [App.notes, h.notes, List.filter_filterMap, List.filterMap_filter]
  refine List.filterMap_congr fun e he => ?_
  obtain ⟨o', ho'⟩ := h.known hs.talks e (List.mem_append_left _ he)
  have hid : o'.offerId = o.offerId ↔ e.offer = r := by
    refine ⟨hs.filed.unique ho ho', ?_⟩
    rintro rfl
    cases ho.symm.trans ho'
    rfl
  have habout : ∀ n ∈ e.note? a.node, n.about r o.offerId = decide (e.offer = r) := by
    intro n hn
    cases e <;> simp only [CommitmentServiceEvent.offer] at ho' hid <;>
      simp only [CommitmentServiceEvent.note?, ho', Option.map_some, Option.mem_some_iff] at hn
    case commitmentProved => cases hn
    all_goals
      subst hn
      exact decide_eq_decide.mpr (by simp [hid, CommitmentServiceEvent.offer])
  cases hn : e.note? a.node with
  | none => split_ifs <;> rfl
  | some n =>
    rw [Option.filter_some, habout n hn]

theorem deposits_eq (hs : Corresponds a) {done : List CommitmentServiceEvent} (h : Relays done a)
    (ho : a.node.offers[r]? = some o) : a.deposits o.offerId =
      (done.filter fun e => e.offer = r).filterMap
        (CommitmentServiceEvent.deposit? a.commitmentServiceAddress a.node) := by
  rw [App.deposits, h.deposits, List.filter_filterMap, List.filterMap_filter]
  refine List.filterMap_congr fun e he => ?_
  obtain ⟨o', ho'⟩ := h.known hs.talks e (List.mem_append_left _ he)
  have habout : ∀ x ∈ e.deposit? a.commitmentServiceAddress a.node,
      decide (x.2.2 = o.offerId) = decide (e.offer = r) := by
    intro x hx
    cases e <;> simp only [CommitmentServiceEvent.offer] at ho' <;>
      simp only [CommitmentServiceEvent.deposit?, ho', Option.map_some, Option.mem_some_iff] at hx
    case commit r' =>
      subst hx
      refine decide_eq_decide.mpr ⟨hs.filed.unique ho ho', ?_⟩
      rintro rfl
      cases ho.symm.trans ho'
      rfl
    all_goals cases hx
  cases hx : e.deposit? a.commitmentServiceAddress a.node with
  | none => split_ifs <;> rfl
  | some x =>
    rw [Option.filter_some, habout x hx]

/-- What the client has handled of an offer are the first events about it. -/
theorem handled_first {done : List CommitmentServiceEvent} (h : Relays done a) (r : OfferRef) :
    (done.filter fun e => e.offer = r) <+:
      (a.node.said r).filterMap Event.toCommitmentService? := by
  have hsaid : (a.node.said r).filterMap Event.toCommitmentService? =
      (a.node.events.filterMap Event.toCommitmentService?).filter fun e => e.offer = r := by
    rw [Node.said, List.filterMap_filter, List.filter_filterMap]
    refine List.filterMap_congr fun e _ => ?_
    cases e with
    | commitmentService e => rw [Event.toCommitmentService?, Option.filter_some]; rfl
    | trader | raidenListener | transport => simp [Event.toCommitmentService?]
  rw [hsaid, h.served, List.filter_append]
  exact List.prefix_append ..

theorem payments_eq {done : List CommitmentServiceEvent} (h : Relays done a) (r : OfferRef) :
    a.payments r = (a.node.said r).filterMap Event.match? := by
  rw [App.payments, h.payments, Node.said, List.filterMap_filter, List.filter_filterMap]
  refine List.filterMap_congr fun e _ => ?_
  cases e with
  | trader e =>
    cases e with
    | swapInit m =>
      have hmatch : Event.match? (.trader (.swapInit m)) = some m := rfl
      rw [hmatch, Option.filter_some]
      rfl
    | transfer | makeChannel => simp [Event.match?, Event.toTrader?, TraderEvent.match?]
  | commitmentService | raidenListener | transport => simp [Event.match?, Event.toTrader?]

theorem conversed (hs : Corresponds a) (ho : a.node.offers[r]? = some o) : Conversed a r o := by
  obtain ⟨done, h⟩ := hs.relays
  have hsaid := hs.talks.known r o ho
  obtain ⟨hnotes, hdeposits⟩ :=
    hsaid.handled ho (handled_first h r) a.commitmentServiceAddress
  rw [← hs.notes_eq h ho] at hnotes hdeposits
  rw [← hs.deposits_eq h ho] at hdeposits
  exact ⟨hsaid, hnotes, hdeposits, by rw [payments_eq h r]; exact hsaid.payments⟩

end Corresponds

/-- In a run whose orders register unknown ids, each offer of the node is spoken of as its state
tells: the commitment service hears of it at most the commitment and then either one report of its
execution or requests to cancel it; the trader makes one deposit with the commitment and one
payment once there is a match. -/
theorem offers_conversed (C : Crypto) (market : TokenPair) (commitmentServiceAddress : Address)
    (is : List App.Input)
    (h : LTS.AllSteps (App.step C) App.Registers (.init market commitmentServiceAddress) is)
    {r : OfferRef} {o : Offer}
    (ho : (App.run C market commitmentServiceAddress is).node.offers[r]? = some o) :
    Conversed (App.run C market commitmentServiceAddress is) r o := by
  have hinv : Corresponds (App.run C market commitmentServiceAddress is) :=
    LTS.run_invariant_of_guard (App.step C) App.Registers (fun _ a => Corresponds a)
      (.init market commitmentServiceAddress) (fun _ _ _ hs hi => hs.step hi) is h
  exact hinv.conversed ho

def provedSeven : CommitmentProof where
  commitmentSig := none
  secret := 3
  secretHash := 3
  offerId := 7
  signature := some 9

/-- An offer of address `4` is taken, proved, paid for and paid. -/
def spokenOf : List App.Input :=
  let env : Env := { now := 0, orderUuid := 1, offerUuid := 2 }
  [.broadcast { offer := { offerId := 7, askToken := 1, askAmount := 5, bidToken := 2,
                           bidAmount := 5, timeout := 100 },
                commitmentProof := provedSeven, signature := some 4 },
   .handle env, .postLimitOrder 1 "SELL" (.int 5) (Float.Model.ofInt 1), .handle env,
   .serveCommitmentService 0, .commitmentProof provedSeven, .handle env,
   .serveRaidenListener, .serveRaidenListener,
   .payment { initiator := 4, amount := .int 5, identifier := 7 }, .serveRaidenListener,
   .handle env, .serveCommitmentService 0]

/-- The offer in the end. -/
def spokenOffer : Offer where
  offerId := 7
  type := .buy
  baseAmount := .int 5
  quoteAmount := .int 5
  timeoutDate := 100
  traderRole := .taker
  proof := some provedSeven
  isModel := true
  state := .pendingWaitForRefund

theorem executed_offer_conversed :
    Conversed (App.run .plain { baseToken := 1, quoteToken := 2 } 9 spokenOf) 0 spokenOffer ∧
      (App.run .plain { baseToken := 1, quoteToken := 2 } 9 spokenOf).notes 0 7 =
        [.commitment 0, .executed 7] :=
  ⟨offers_conversed .plain { baseToken := 1, quoteToken := 2 } 9 spokenOf (by decide +kernel)
    (by decide +kernel), by decide +kernel⟩

end RaidexNode
end Raidex
