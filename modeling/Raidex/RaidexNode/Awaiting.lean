import Raidex.RaidexNode.Correspondence
import Raidex.RaidexNode.Execution

/-!
# Raidex.RaidexNode.Awaiting

What a node expects to be paid for an offer, and what it does when that is paid.

* `Awaits`: what is expected for an offer, and what has been paid for it, by its state.
* `Asks`: what the events of the node ask for.
* `Expecting.step`: a handler that returns has taken the payment that it handles from what was
  expected, and added what it asks for.
-/

namespace Raidex
namespace RaidexNode

/-! ## What is expected -/

def RaidenListenerEvent.senderFor (id : Nat) : RaidenListenerEvent → Option Address
  | .expectInbound initiator identifier => if identifier = id then some initiator else none
  | .channelFilter | .paymentReceived _ | .channelStatus _ => none

def EventFilter.senderFor (id : Nat) : EventFilter → Option Address
  | .transferReceived initiator identifier => if identifier = id then some initiator else none
  | .channel => none

def StateChange.senderFor (id : Nat) : StateChange → Option Address
  | .transferReceived e => if e.identifier = id then some e.initiator else none
  | _ => none

/-- The client is going to ask for the payment of the service. -/
def CommitmentServiceEvent.senderFor (service : Address) (s : Node) (id : Nat) :
    CommitmentServiceEvent → Option Address
  | .receivedInbound r _ =>
    s.offers[r]?.bind fun o => if o.offerId = id then some service else none
  | .commit _ | .commitmentProved _ | .cancellationRequest _ => none

def Event.senderFor (service : Address) (s : Node) (id : Nat) : Event → Option Address
  | .raidenListener e => e.senderFor id
  | .commitmentService e => e.senderFor service s id
  | .trader _ | .transport _ => none

/-- What is expected for the offer `o` at `r`, when `seen` are the payments so far. -/
inductive Awaits (service : Address) (seen : List (Address × Nat)) (s : Node) (r : OfferRef)
    (o : Offer) : List Address → Prop where
  | unmatched (h : o.state.engaged = false) : Awaits service seen s r o []
  | exchanging {m : Match} (h : o.state = .pendingExchanging)
      (hm : s.matchesById.lookup o.offerId = some m) (hr : m.offer = some r) :
      Awaits service seen s r o [m.target]
  | waitForRefund {m : Match} (h : o.state = .pendingWaitForRefund)
      (hm : s.matchesById.lookup o.offerId = some m) (hr : m.offer = some r)
      (hpaid : (m.target, o.offerId) ∈ seen) : Awaits service seen s r o [service]
  | completed {m : Match} (h : o.state = .completed)
      (hm : s.matchesById.lookup o.offerId = some m) (hr : m.offer = some r)
      (hpaid : (m.target, o.offerId) ∈ seen) (hrefund : (service, o.offerId) ∈ seen) :
      Awaits service seen s r o []

/-- `x id` are the senders of what is expected for `id`. -/
structure Expecting (service : Address) (seen : List (Address × Nat)) (s : Node)
    (x : Nat → List Address) : Prop where
  known : ∀ (r : OfferRef) o, s.offers[r]? = some o → Awaits service seen s r o (x o.offerId)
  unknown : ∀ id, s.getOffer id = none → x id = []

section

variable {service : Address} {seen seen' : List (Address × Nat)} {s s' : Node} {r : OfferRef}
  {o o' : Offer} {xs ys : List Address} {m : Match}

namespace Awaits

theorem perm (h : Awaits service seen s r o xs) (hperm : ys.Perm xs) :
    Awaits service seen s r o ys := by
  cases h with
  | unmatched h => rw [hperm.eq_nil]; exact .unmatched h
  | exchanging h hm hr => rw [List.perm_singleton.mp hperm]; exact .exchanging h hm hr
  | waitForRefund h hm hr hpaid =>
    rw [List.perm_singleton.mp hperm]
    exact .waitForRefund h hm hr hpaid
  | completed h hm hr hpaid hrefund => rw [hperm.eq_nil]; exact .completed h hm hr hpaid hrefund

/-- More has been paid, and the match of the offer is the same. -/
theorem mono (h : Awaits service seen s r o xs) (hseen : seen ⊆ seen')
    (hmatch : s'.matchesById.lookup o.offerId = s.matchesById.lookup o.offerId) :
    Awaits service seen' s' r o xs := by
  cases h with
  | unmatched h => exact .unmatched h
  | exchanging h hm hr => exact .exchanging h (hmatch.trans hm) hr
  | waitForRefund h hm hr hpaid => exact .waitForRefund h (hmatch.trans hm) hr (hseen hpaid)
  | completed h hm hr hpaid hrefund =>
    exact .completed h (hmatch.trans hm) hr (hseen hpaid) (hseen hrefund)

theorem eq_nil (h : Awaits service seen s r o xs) (hst : o.state.engaged = false) : xs = [] := by
  cases h with
  | unmatched | completed => rfl
  | exchanging h | waitForRefund h => rw [h] at hst; cases hst

end Awaits

/-! ## What the node asks for -/

/-- What the node asks for in the events `es`, none of which is a report. -/
structure Asks (service : Address) (s : Node) (es : List Event) (y : Nat → List Address) :
    Prop where
  silent : ∀ r e, Event.commitmentService (.receivedInbound r e) ∉ es
  asked : ∀ id, es.filterMap (Event.senderFor service s id) = y id

theorem Asks.append {es es' : List Event} {y y' : Nat → List Address}
    (h : Asks service s es y) (h' : Asks service s' es' y') :
    Asks service s' (es ++ es') fun id => y id ++ y' id := by
  refine ⟨fun r e he => ?_, fun id => ?_⟩
  · rcases List.mem_append.mp he with he | he
    · exact h.silent r e he
    · exact h'.silent r e he
  · rw [List.filterMap_append, h'.asked id, ← h.asked id]
    refine congrArg (· ++ _) (List.filterMap_congr fun e he => ?_)
    cases e with
    | commitmentService e =>
      cases e with
      | receivedInbound r p => exact absurd he (h.silent r p)
      | commit | commitmentProved | cancellationRequest => rfl
    | raidenListener | trader | transport => rfl

theorem asks_nil {es : List Event}
    (hlistener : ∀ e, Event.raidenListener e ∈ es → e = .channelFilter)
    (hsilent : ∀ r e, Event.commitmentService (.receivedInbound r e) ∉ es) :
    Asks service s es fun _ => [] := by
  refine ⟨hsilent, fun id => List.filterMap_eq_nil_iff.mpr fun e he => ?_⟩
  cases e with
  | raidenListener e => rw [hlistener e he]; rfl
  | commitmentService e =>
    cases e with
    | receivedInbound r p => exact absurd he (hsilent r p)
    | commit | commitmentProved | cancellationRequest => rfl
  | trader | transport => rfl

theorem asks_entryEvents {d : OfferState} {k : OfferKwargs} (hd : d ≠ .pendingWaitForRefund) :
    Asks service s (entryEvents r d k) fun _ => [] := by
  refine asks_nil (fun e he => absurd he not_mem_entryEvents_raidenListener) fun r' e he => ?_
  exact hd (receivedInbound_mem_entryEvents he).2

theorem asks_exchanging (m : Match) (offerId : Nat) : Asks service s
    [.trader (.swapInit m), .raidenListener (.expectInbound m.target offerId)]
    fun id => if offerId = id then [m.target] else [] := by
  refine ⟨by simp, fun id => ?_⟩
  simp only [List.filterMap_cons, Event.senderFor, RaidenListenerEvent.senderFor,
    List.filterMap_nil]
  split_ifs <;> rfl

/-! ## One change -/

/-- Offers and matches are as before, and nothing is dispatched. -/
structure SameDeals (s s' : Node) : Prop where
  offers : s'.offers = s.offers
  offerManager : s'.offerManager = s.offerManager
  matchesById : s'.matchesById = s.matchesById
  events : s'.events = s.events

theorem SameDeals.refl (s : Node) : SameDeals s s := ⟨rfl, rfl, rfl, rfl⟩

theorem SameDeals.trans {s s₁ s₂ : Node} (h : SameDeals s s₁) (h' : SameDeals s₁ s₂) :
    SameDeals s s₂ where
  offers := h'.offers.trans h.offers
  offerManager := h'.offerManager.trans h.offerManager
  matchesById := h'.matchesById.trans h.matchesById
  events := h'.events.trans h.events

theorem sameDeals_removeModel (r : OfferRef) (o : Offer) :
    EStateM.Moves SameDeals (removeModel r o) := by
  intro s
  cases hfind : s.findModel r o with
  | none => rw [removeModel_error hfind]; exact .refl s
  | some r' => rw [removeModel_ok hfind]; exact ⟨rfl, rfl, rfl, rfl⟩

namespace Expecting

variable {x y : Nat → List Address} {b : BasicOffer Number} {role : TraderRole} {d : OfferState}
  {k : OfferKwargs} {sc : StateChange}

theorem perm (hs : Expecting service seen s x) (h : ∀ id, (y id).Perm (x id)) :
    Expecting service seen s y where
  known r o ho := (hs.known r o ho).perm (h o.offerId)
  unknown id hid := (hs.unknown id hid ▸ h id).eq_nil

theorem of_eq (hs : Expecting service seen s x) (hoffers : s'.offers = s.offers)
    (hmanager : s'.offerManager = s.offerManager) (hmatches : s'.matchesById = s.matchesById)
    (hseen : seen ⊆ seen') : Expecting service seen' s' x where
  known r o ho := (hs.known r o (hoffers ▸ ho)).mono hseen (by rw [hmatches])
  unknown id hid := hs.unknown id (by rwa [Node.getOffer, ← hmanager])

theorem created (hs : Expecting service seen s x) (hfresh : s.hasOffer b.offerId = false) :
    Expecting service seen (s.created b role) x := by
  have hnone : s.getOffer b.offerId = none := AList.lookup_eq_none.mpr (of_decide_eq_false hfresh)
  refine ⟨fun r o ho => ?_, fun id hid => ?_⟩
  · rcases created_cases ho with ho | ⟨-, rfl⟩
    · exact (hs.known r o ho).mono (List.Subset.refl _) rfl
    · have hx : x (Offer.new b role (!s.hasEqualModel b)).offerId = [] := hs.unknown _ hnone
      rw [hx]
      exact .unmatched rfl
  · by_cases heq : id = b.offerId
    · exact heq ▸ hs.unknown _ hnone
    · exact hs.unknown id ((AList.lookup_insert_ne heq).symm.trans hid)

/-- A match for an offer that has none. -/
theorem setMatch (hs : Expecting service seen s x) (hfiled : FiledById s)
    (ho : s.offers[r]? = some o) (hst : o.state.engaged = false) (m : Match) :
    Expecting service seen { s with matchesById := s.matchesById.insert o.offerId m } x := by
  refine ⟨fun r' o' ho' => ?_, hs.unknown⟩
  by_cases hid : o'.offerId = o.offerId
  · obtain rfl := hfiled.unique ho ho' hid
    cases ho.symm.trans ho'
    rw [(hs.known _ o ho).eq_nil hst]
    exact .unmatched hst
  · exact (hs.known r' o' ho').mono (List.Subset.refl _) (AList.lookup_insert_ne hid)

/-- The offer at `r` enters a state, and what is expected for others is as before. -/
theorem entered (hs : Expecting service seen s x) (hfiled : FiledById s)
    (ho : s.offers[r]? = some o)
    (hself : Awaits service seen (s.entered r o d k) r (o.enter d k) (y o.offerId))
    (hother : ∀ id, id ≠ o.offerId → y id = x id) :
    Expecting service seen (s.entered r o d k) y := by
  refine ⟨fun r' o' ho' => ?_, fun id hid => ?_⟩
  · rcases entered_cases ho' with ⟨rfl, rfl⟩ | ⟨hne, ho'⟩
    · exact hself
    · rw [hother _ fun hid => hne (hfiled.unique ho ho' hid)]
      exact (hs.known r' o' ho').mono (List.Subset.refl _) rfl
  · have hne : id ≠ o.offerId := by
      rintro rfl
      have hget := hfiled r o ho
      rw [show s.getOffer o.offerId = none from hid] at hget
      cases hget
    rw [hother id hne]
    exact hs.unknown id hid

/-- A match is made for the offer at `r`. -/
theorem exchanging (hs : Expecting service seen s x) (hfiled : FiledById s)
    (ho : s.offers[r]? = some o) (hst : o.state.engaged = false)
    (hm : s.matchesById.lookup o.offerId = some m) (hr : m.offer = some r) :
    Expecting service seen (s.exchanging m r o)
      fun id => x id ++ if o.offerId = id then [m.target] else [] := by
  have hentered : Expecting service seen (s.entered r o .pendingExchanging {})
      fun id => x id ++ if o.offerId = id then [m.target] else [] := by
    refine hs.entered hfiled ho ?_ fun id hid => ?_
    · rw [(hs.known r o ho).eq_nil hst, if_pos rfl]
      exact .exchanging rfl hm hr
    · rw [if_neg hid.symm, List.append_nil]
  exact hentered.of_eq rfl rfl rfl (List.Subset.refl _)

theorem silent (hs : Expecting service seen s x) : Expecting service seen s fun id => x id ++ [] :=
  hs.perm fun id => (List.append_nil (x id)).symm ▸ .refl _

/-- Only payments lead from a match to anything, and only matches to it. -/
theorem unmatched_dest {t : OfferTrigger} (hd : t.dest o.state = some d)
    (hmatch : t ≠ .foundMatch) (hinbound : t ≠ .receivedInbound) :
    o.state.engaged = false ∧ d.engaged = false := by
  cases t with
  | foundMatch => exact absurd rfl hmatch
  | receivedInbound => exact absurd rfl hinbound
  | _ => revert hd; cases o.state <;> intro hd <;> cases hd <;> exact ⟨rfl, rfl⟩

theorem found_dest (hd : OfferTrigger.foundMatch.dest o.state = some d) :
    o.state.engaged = false := by
  revert hd
  cases o.state <;> intro hd <;> cases hd <;> rfl

theorem exchanging_events (m : Match) (r : OfferRef) (o : Offer) : (s.exchanging m r o).events =
    s.events ++ [.trader (.swapInit m), .raidenListener (.expectInbound m.target o.offerId)] := by
  simp only [Node.exchanging, Node.entered, entryEvents, List.append_nil]

/-- A state change that is no payment asks for what it makes the node expect. -/
theorem effect (hs : Expecting service seen s x) (hpaired : Paired s) (hfiled : FiledById s)
    (hsc : ∀ e, sc ≠ .transferReceived e) (h : Effect True sc s s') :
    ∃ es y, s'.events = s.events ++ es ∧ Asks service s' es y ∧
      Expecting service seen s' fun id => x id ++ y id := by
  cases h with
  | quiet h =>
    obtain ⟨es, hes, hquiet⟩ := h.events
    refine ⟨es, _, hes, asks_nil (fun e he => ?_) (fun r e he => ?_),
      (hs.of_eq h.offers h.offerManager h.matchesById (List.Subset.refl _)).silent⟩
    · have hq := hquiet _ he
      cases e <;> first | rfl | cases hq
    · cases hquiet _ he
  | created data b role hfresh =>
    refine ⟨[], _, (List.append_nil _).symm, asks_nil (by simp) (by simp), ?_⟩
    exact (hs.created (hfresh trivial)).silent
  | taken data e hfresh =>
    refine ⟨[], _, (List.append_nil _).symm, asks_nil (by simp) (by simp), ?_⟩
    have hcreated : Expecting service seen (s.created e.takeOffer .taker) x :=
      hs.created (hfresh trivial)
    have hset := hcreated.setMatch (hfiled.created .taker (hfresh trivial))
      List.getElem?_concat_length rfl (takerMatch s.nextOffer e)
    exact hset.silent
  | @entered _ _ r o t k d ho hmodel hd hfires =>
    have htriggers : t ≠ .foundMatch ∧ t ≠ .receivedInbound := by
      cases hfires with
      | inbound e => exact absurd rfl (hsc e)
      | _ => exact ⟨nofun, nofun⟩
    obtain ⟨hst, hst'⟩ := unmatched_dest hd htriggers.1 htriggers.2
    refine ⟨_, _, rfl, asks_entryEvents ?_, silent (hs.entered hfiled ho ?_ fun _ _ => rfl)⟩
    · rintro rfl
      cases hst'
    · rw [(hs.known r o ho).eq_nil hst]
      exact .unmatched hst'
  | @provedMatched _ r o m r' o' p hr ho hmodel hstate hm hr' ho' hmodel' hd =>
    -- the match is that of the offer that is proved
    obtain ⟨r₀, o₀, hr₀, hget, -⟩ := hpaired.matched _ m hm
    cases hr'.symm.trans hr₀
    obtain rfl : r = r' := Option.some.inj ((hfiled r o ho).symm.trans hget)
    cases (entered_self ho).symm.trans ho'
    have hproved : Expecting service seen (s.entered r o .openProved { proof := some p }) x := by
      refine hs.entered hfiled ho ?_ fun _ _ => rfl
      rw [(hs.known r o ho).eq_nil (by rw [hstate]; rfl)]
      exact .unmatched rfl
    refine ⟨_, _, ?_, asks_exchanging m o.offerId, ?_⟩
    · exact (exchanging_events m r _).trans (congrArg (· ++ _) (List.append_nil s.events))
    exact hproved.exchanging (hfiled.entered ho) ho' rfl hm hr'
  | @called _ r o offerId initiator p hr ho hmodel hd =>
    obtain rfl : o.offerId = offerId := hpaired.managed.offerId hr ho
    have hset := hs.setMatch hfiled ho (found_dest hd) (makerMatch (some r) initiator p)
    refine ⟨_, _, exchanging_events _ r o, asks_exchanging _ _, ?_⟩
    exact hset.exchanging (hfiled.of_eq rfl rfl) ho (found_dest hd) (AList.lookup_insert ..) rfl
  | completed e => exact absurd rfl (hsc e)

/-! ## What the consumer handles -/

variable {env : Env} {e : PaymentReceivedEvent}

/-- A handler that returns, of a state change that is no payment. -/
theorem handled (hs : Expecting service seen s x) (hpaired : Paired s) (hfiled : FiledById s)
    (hfresh : FreshIds env s sc) (hsc : ∀ e, sc ≠ .transferReceived e)
    (hret : ((handleStateChange env sc).run s).returned = true) :
    ∃ es y, ((handleStateChange env sc).run s).state.events = s.events ++ es ∧
      Asks service ((handleStateChange env sc).run s).state es y ∧
      Expecting service seen ((handleStateChange env sc).run s).state fun id => x id ++ y id := by
  have hproceeds := handleStateChange_proceeds fun _ : True => hfresh
  refine (hproceeds.keeps (P := fun s' => Paired s' ∧ FiledById s' ∧ ∃ es y,
    s'.events = s.events ++ es ∧ Asks service s' es y ∧
      Expecting service seen s' fun id => x id ++ y id) ?_ ?_ hret).2.2
  · exact ⟨hpaired, hfiled, [], _, (List.append_nil _).symm, asks_nil (by simp) (by simp),
      hs.silent⟩
  · rintro s₁ s₂ heff ⟨hpaired₁, hfiled₁, es, y, hes, hasks, hs₁⟩
    obtain ⟨es', y', hes', hasks', hs₂⟩ := hs₁.effect hpaired₁ hfiled₁ hsc heff
    refine ⟨(hpaired₁.effect heff).1, hfiled₁.effect heff, es ++ es', _, ?_,
      hasks.append hasks', hs₂.perm fun id => ?_⟩
    · rw [hes', hes, List.append_assoc]
    · exact .of_eq (List.append_assoc ..).symm

/-- The offer of a payment that is handled takes it. -/
theorem transferReceived_returned (h : ((handleTransferReceived e).run s).returned = true) :
    ∃ m r o d, s.matchesById.lookup e.identifier = some m ∧ m.offer = some r ∧
      s.offers[r]? = some o ∧ OfferTrigger.receivedInbound.dest o.state = some d ∧
      SameDeals (s.entered r o d { raidenEvent := some e })
        ((handleTransferReceived e).run s).state := by
  unfold handleTransferReceived at h ⊢
  rw [EStateM.run_bind, EStateM.run_get] at h ⊢
  cases hm : s.matchesById.lookup e.identifier with
  | none => simp [hm] at h
  | some m =>
    simp only [hm, receivedInbound] at h ⊢
    cases hr : m.offer with
    | none => simp [hr] at h
    | some r =>
      simp only [hr] at h ⊢
      by_cases hfire : s.CanFire r .receivedInbound
      · obtain ⟨o, ho, hmodel, d, hd⟩ := hfire
        have hrun := callOffer_ok (k := { raidenEvent := some e }) ho hmodel hd fun _ => rfl
        refine ⟨m, r, o, d, rfl, hr, ho, hd, ?_⟩
        have hread := readOffer_ok (entered_self (d := d) (k := { raidenEvent := some e }) ho)
        rw [EStateM.run_seq_ok hrun, EStateM.run_seq_ok hread]
        have hclean : EStateM.Moves SameDeals
            (modify fun s => s.cleanUpTimeout e.identifier : NodeM Unit) :=
          fun _ => ⟨rfl, rfl, rfl, rfl⟩
        split
        next =>
          exact EStateM.moves_bind (fun _ _ _ h h' => h.trans h') hclean
            (fun _ => sameDeals_removeModel r _) _
        next => exact .refl _
      · obtain ⟨err, hrun⟩ := callOffer_error (k := { raidenEvent := some e }) hfire
        rw [EStateM.run_seq_error hrun] at h
        cases h

theorem filterMap_senderFor_entryEvents (id : Nat) (ho : s.offers[r]? = some o) :
    (entryEvents r d { raidenEvent := some e }).filterMap (Event.senderFor service s id) =
      if d = .pendingWaitForRefund ∧ o.offerId = id then [service] else [] := by
  by_cases hd : d = .pendingWaitForRefund
  · subst hd
    by_cases hid : o.offerId = id <;>
      simp [entryEvents, Event.senderFor, CommitmentServiceEvent.senderFor, ho, hid]
  · rw [(asks_entryEvents hd).asked id, if_neg fun h => hd h.1]

/-- The payment that is handled was expected, and the next one is expected instead. -/
theorem inbound (h : Awaits service seen s r o (e.initiator :: xs))
    (hseen : (e.initiator, o.offerId) ∈ seen)
    (hd : OfferTrigger.receivedInbound.dest o.state = some d) :
    Awaits service seen (s.entered r o d k) r (o.enter d k)
      (xs ++ if d = .pendingWaitForRefund then [service] else []) := by
  generalize hys : e.initiator :: xs = ys at h
  cases h with
  | unmatched h => cases hys
  | completed h => cases hys
  | exchanging h hm hr =>
    rw [h] at hd
    cases hd
    obtain ⟨hsender, rfl⟩ := List.cons.inj hys
    exact .waitForRefund rfl hm hr (hsender ▸ hseen)
  | waitForRefund h hm hr hpaid =>
    rw [h] at hd
    cases hd
    cases hys
    exact .completed rfl hm hr hpaid hseen

/-- A handler that returns, of a payment. -/
theorem paid (hs : Expecting service seen s
      fun id => ((StateChange.transferReceived e).senderFor id).toList ++ x id)
    (hpaired : Paired s) (hfiled : FiledById s) (hseen : (e.initiator, e.identifier) ∈ seen)
    (hret : ((handleTransferReceived e).run s).returned = true) :
    ∃ es, ((handleTransferReceived e).run s).state.events = s.events ++ es ∧
      Expecting service seen ((handleTransferReceived e).run s).state fun id => x id ++
        es.filterMap (Event.senderFor service ((handleTransferReceived e).run s).state id) := by
  obtain ⟨m, r, o, d, hm, hr, ho, hd, hsame⟩ := transferReceived_returned hret
  have hid : o.offerId = e.identifier := (hpaired.match_offer hm hr ho).2.1
  have hself := entered_self (d := d) (k := { raidenEvent := some e }) ho
  refine ⟨_, hsame.events, ?_⟩
  have hentered : Expecting service seen (s.entered r o d { raidenEvent := some e })
      fun id => x id ++ if d = .pendingWaitForRefund ∧ o.offerId = id then [service] else [] := by
    refine hs.entered hfiled ho ?_ fun id hne => ?_
    · have hsender : (StateChange.transferReceived e).senderFor o.offerId = some e.initiator :=
        if_pos hid.symm
      have hknown := hs.known r o ho
      rw [hsender] at hknown
      simp only [and_true]
      exact inbound hknown (hid ▸ hseen) hd
    · have hne' : e.identifier ≠ id := fun h => hne (h.symm.trans hid.symm)
      rw [if_neg fun h => hne h.2.symm, List.append_nil]
      simp [StateChange.senderFor, hne']
  refine (hentered.of_eq hsame.offers hsame.offerManager hsame.matchesById
    (List.Subset.refl _)).perm fun id => .of_eq ?_
  rw [filterMap_senderFor_entryEvents id (hsame.offers ▸ hself)]
  rfl

/-- A handler that returns: what it takes was expected, and what it asks for is expected now. -/
theorem step (hs : Expecting service seen s fun id => (sc.senderFor id).toList ++ x id)
    (hpaired : Paired s) (hfiled : FiledById s) (hfresh : FreshIds env s sc)
    (hseen : ∀ e, sc = .transferReceived e → (e.initiator, e.identifier) ∈ seen)
    (hret : ((handleStateChange env sc).run s).returned = true) :
    ∃ es, ((handleStateChange env sc).run s).state.events = s.events ++ es ∧
      Expecting service seen ((handleStateChange env sc).run s).state fun id => x id ++
        es.filterMap (Event.senderFor service ((handleStateChange env sc).run s).state id) := by
  by_cases hsc : ∃ e, sc = .transferReceived e
  · obtain ⟨e, rfl⟩ := hsc
    exact hs.paid hpaired hfiled (hseen e rfl) hret
  · have hsc (e : PaymentReceivedEvent) (h : sc = .transferReceived e) : False := hsc ⟨e, h⟩
    have hnone : ∀ id, sc.senderFor id = none := by
      intro id
      cases sc with
      | transferReceived e => exact (hsc e rfl).elim
      | _ => rfl
    have hx : Expecting service seen s x := hs.perm fun id => by
      rw [hnone id]
      exact .refl _
    obtain ⟨es, y, hes, hasks, hs'⟩ := hx.handled hpaired hfiled hfresh hsc hret
    refine ⟨es, hes, hs'.perm fun id => ?_⟩
    rw [hasks.asked id]

end Expecting

end

end RaidexNode
end Raidex
