import Raidex.RaidexNode.Models
import Raidex.RaidexNode.Steps

/-!
# Raidex.RaidexNode.Survival

Which state changes the consumer of the node survives.

* `Handles`: the condition on the node and the state change.
* `handleStateChange_returns_iff`: in a sound node, `handle_state_change` returns exactly under
  this condition.
* `survives_iff`: every reachable node is sound, and it is running exactly when every state change
  that its consumer took met the condition.
-/

namespace Raidex
namespace RaidexNode

/-! ## Taking several offers -/

section

variable {s s₁ : Node} {env : Env} {orderId : Nat} {e : OfferBookEntry} {o : BasicOffer Number}

theorem initiated_timeoutGreenlets : (s.initiated env orderId e).timeoutGreenlets =
    (s.timeoutGreenlets.erase e.offerId).insert e.offerId
      { timeoutDate := e.offer.timeoutDate
        lifetime := (e.offer.timeoutDate - env.now : Int) - (0 : Nat), dead := false } :=
  updateOrder_timeoutGreenlets ..

/-- After taking an offer, timers can start as before. -/
theorem startable_after (h : (takeOffer env orderId e).run s = .ok () s₁) (id : Nat) :
    s₁.Startable id ↔ s.Startable id := by
  obtain ⟨hcan, book, rfl, -⟩ := takeOffer_returned h
  have htimers :
      ({ s.initiated env orderId e with offerBook := book } : Node).timeoutGreenlets = _ :=
    initiated_timeoutGreenlets
  unfold Node.Startable Node.hasGreenlet Node.isStillAlive
  rw [htimers]
  by_cases hid : id = e.offerId
  · subst hid
    simp only [AList.lookup_insert]
    exact iff_of_true (fun _ => rfl) hcan.startable
  · simp [AList.mem_insert, AList.mem_erase, AList.lookup_insert_ne hid,
      AList.lookup_erase_ne hid, hid]

theorem initiated_offers : (s.initiated env orderId e).offers =
    s.offers ++ [(Offer.new e.takeOffer .taker true).enter .openUnproved {}] := by
  have hreg : (s.registered env orderId e).offers =
      s.offers ++ [.new e.takeOffer .taker (!s.hasEqualModel e.takeOffer)] :=
    updateOrder_offers ..
  simp [Node.initiated, Node.entered, hreg, Node.nextOffer]

theorem initiated_models (h : s.hasEqualModel e.takeOffer = false) :
    (s.initiated env orderId e).models = s.models ++ [s.nextOffer] := by
  have hreg : (s.registered env orderId e).models = (s.created e.takeOffer .taker).models :=
    updateOrder_models ..
  rw [Node.initiated, Node.entered, hreg, Node.created, h]
  rfl

/-- After taking an offer, only an offer equal to it has become a copy of a model. -/
theorem hasEqualModel_after (hknown : ∀ r ∈ s.models, r < s.offers.length)
    (h : (takeOffer env orderId e).run s = .ok () s₁) (hne : e.takeOffer.equals o = false) :
    s₁.hasEqualModel o = s.hasEqualModel o := by
  obtain ⟨hcan, book, rfl, -⟩ := takeOffer_returned h
  unfold Node.hasEqualModel
  simp only [initiated_offers, initiated_models hcan.distinct, List.any_append, List.any_cons,
    List.any_nil, Bool.or_false]
  have hnew :
      (s.offers ++ [(Offer.new e.takeOffer .taker true).enter .openUnproved {}])[s.nextOffer]? =
        some ((Offer.new e.takeOffer .taker true).enter .openUnproved {}) :=
    List.getElem?_concat_length
  rw [hnew]
  have hlast : ((Offer.new e.takeOffer .taker true).enter .openUnproved {}).toBasicOffer.equals o =
      false := hne
  simp only [Option.any_some, hlast, Bool.or_false]
  rw [Bool.eq_iff_iff, List.any_eq_true, List.any_eq_true]
  refine exists_congr fun r => and_congr_right fun hr => ?_
  rw [List.getElem?_append_left (hknown r hr)]

theorem known_after (hknown : ∀ r ∈ s.models, r < s.offers.length)
    (h : (takeOffer env orderId e).run s = .ok () s₁) : ∀ r ∈ s₁.models, r < s₁.offers.length := by
  obtain ⟨hcan, book, rfl, -⟩ := takeOffer_returned h
  simp only [initiated_offers, initiated_models hcan.distinct, List.mem_append, List.mem_singleton,
    List.length_append, List.length_singleton]
  rintro r (hr | rfl)
  · exact Nat.lt_succ_of_lt (hknown r hr)
  · exact Nat.lt_succ_self _

theorem takeOffer_equals_false {e e' : OfferBookEntry} (h : e'.offerId ≠ e.offerId) :
    e.takeOffer.equals e'.takeOffer = false := by
  have : e.takeOffer.offerId ≠ e'.takeOffer.offerId := h.symm
  simp [BasicOffer.equals, this]

theorem canTake_after (hknown : ∀ r ∈ s.models, r < s.offers.length)
    (h : (takeOffer env orderId e).run s = .ok () s₁) {e' : OfferBookEntry}
    (hne : e'.offerId ≠ e.offerId) : CanTake s₁ e' ↔ CanTake s e' := by
  have hmodel := hasEqualModel_after hknown h (takeOffer_equals_false hne)
  have hbook : s₁.offerBook.contains e'.offerId = s.offerBook.contains e'.offerId := by
    obtain ⟨-, book, rfl, hids⟩ := takeOffer_returned h
    exact hids e'.offerId hne
  constructor
  · rintro ⟨h1, h2, h3, h4⟩
    exact ⟨(startable_after h _).mp h1, h2, hmodel ▸ h3, hbook ▸ h4⟩
  · rintro ⟨h1, h2, h3, h4⟩
    exact ⟨(startable_after h _).mpr h1, h2, hmodel.trans h3, hbook.trans h4⟩

end

section

variable {s s₁ : Node} {env : Env} {orderId : Nat} {es : List OfferBookEntry}

/-- Every entry can be taken in the state before the first is. -/
theorem takeOffers_returns_iff (hknown : ∀ r ∈ s.models, r < s.offers.length)
    (hnodup : (es.map OfferBookEntry.offerId).Nodup) :
    EStateM.Returns (takeOffers env orderId es) s ↔ ∀ e ∈ es, CanTake s e := by
  induction es generalizing s with
  | nil => exact iff_of_true rfl (by simp)
  | cons e es ih =>
    rw [List.map_cons, List.nodup_cons] at hnodup
    have hother {s₁ : Node} (h : (takeOffer env orderId e).run s = .ok () s₁) :
        (∀ e' ∈ es, CanTake s₁ e') ↔ ∀ e' ∈ es, CanTake s e' :=
      forall₂_congr fun e' he' => canTake_after hknown h fun heq =>
        hnodup.1 (heq ▸ List.mem_map_of_mem he')
    rw [takeOffers, EStateM.returns_bind, List.forall_mem_cons]
    constructor
    · rintro ⟨_, s₁, hrun, hret⟩
      refine ⟨(takeOffer_returned hrun).1, ?_⟩
      exact (hother hrun).mp ((ih (known_after hknown hrun) hnodup.2).mp hret)
    · rintro ⟨he, hes⟩
      obtain ⟨book, hrun, -⟩ := takeOffer_ok env orderId he
      exact ⟨(), _, hrun, (ih (known_after hknown hrun) hnodup.2).mpr ((hother hrun).mpr hes)⟩

theorem canOffer_after (hknown : ∀ r ∈ s.models, r < s.offers.length)
    (h : (takeOffers env orderId es).run s = .ok () s₁) {o : BasicOffer Number}
    (hne : ∀ e ∈ es, e.takeOffer.equals o = false) : CanOffer s₁ o ↔ CanOffer s o := by
  induction es generalizing s with
  | nil => cases h; exact .rfl
  | cons e es ih =>
    obtain ⟨_, s₂, hrun, h⟩ := EStateM.run_bind_eq_ok.mp h
    rw [ih (known_after hknown hrun) h fun e' he' => hne e' (List.mem_cons_of_mem _ he')]
    unfold CanOffer
    rw [startable_after hrun, hasEqualModel_after hknown hrun (hne e (List.mem_cons_self ..))]

end

/-! ## The handlers -/

/-- When `handle_state_change` returns. -/
def Handles (env : Env) (s : Node) : StateChange → Prop
  | .newLimitOrder data =>
    ∀ taken rest, matchLimit s.offerBook data.price (LimitOrder.fromDict env data).orderType
        data.amount = .ok (taken, rest) →
      (∀ e ∈ taken, CanTake s e) ∧
      (rest.positive = true →
        ∃ o, (LimitOrder.fromDict env data).makeOffer env rest = .ok o ∧ CanOffer s o)
  | .cancelLimitOrder orderId =>
    ∃ order, s.orders.lookup orderId = some order ∧ ∀ x ∈ order.correspondingOffers,
      ∃ o, s.offers[x.2]? = some o ∧ o.isModel = true ∧ o.state.status ≠ .open_
  | .offerTimeout offerId _ => ∀ r, s.getOffer offerId = some r → s.CanFire r .timeout
  | .commitmentProof p =>
    ∃ r o, s.getOffer p.offerId = some r ∧ s.offers[r]? = some o ∧
      s.CanFire r .receiveCommitmentProof ∧
      ∀ m, s.matchesById.lookup o.offerId = some m →
        ∃ r', m.offer = some r' ∧ (r' = r ∨ s.CanFire r' .foundMatch)
  | .cancellationProof p =>
    ∃ r, s.getOffer p.offerId = some r ∧ s.CanFire r .receiveCancellationProof
  | .takerCall offerId _ _ => ∃ r, s.getOffer offerId = some r ∧ s.CanFire r .foundMatch
  | .offerPublished e =>
    match s.getOffer e.offerId with
    | some r => s.CanFire r .receivedOffer
    | none => (∃ price, e.price = .ok price) ∧ s.Startable e.offerId ∧
        e.offer.timeoutDate ≤ maxTimestamp
  | .transferReceived e =>
    ∃ m r, s.matchesById.lookup e.identifier = some m ∧ m.offer = some r ∧
      s.CanFire r .receivedInbound
  | .channelStatus _ | .makeChannel .. => True

section

variable {s : Node} {r : OfferRef} {t : OfferTrigger} {k : OfferKwargs}

theorem callOffer_returns_iff (hkwargs : t = .receivedInbound → k.raidenEvent.isSome) :
    EStateM.Returns (callOffer r t k) s ↔ s.CanFire r t := by
  refine EStateM.returns_iff_of ?_ fun hfire => ?_
  · rintro ⟨o, ho, hmodel, d, hd⟩
    exact ⟨(), _, callOffer_ok ho hmodel hd hkwargs⟩
  · obtain ⟨err, hrun⟩ := callOffer_error (k := k) hfire
    exact ⟨err, s, hrun⟩

theorem callOffer?_returns_iff {offer : Option OfferRef}
    (hkwargs : t = .receivedInbound → k.raidenEvent.isSome) :
    EStateM.Returns (callOffer? offer t k) s ↔ ∃ r, offer = some r ∧ s.CanFire r t := by
  cases offer with
  | none => exact ⟨nofun, by rintro ⟨r, ⟨⟩, -⟩⟩
  | some r =>
    rw [callOffer?, callOffer_returns_iff hkwargs]
    exact ⟨fun h => ⟨r, rfl, h⟩, by rintro ⟨_, ⟨⟩, h⟩; exact h⟩

theorem createNewTimeout_returns_iff {env : Env} {offerId date threshold : Nat} :
    EStateM.Returns (createNewTimeout env offerId date threshold) s ↔
      s.Startable offerId ∧ date ≤ maxTimestamp := by
  refine EStateM.returns_iff_of ?_ fun htime => ?_
  · rintro ⟨hs, hdate⟩
    exact ⟨true, _, createNewTimeout_ok env threshold hs hdate⟩
  · obtain ⟨err, s', hrun, -⟩ := createNewTimeout_error env threshold htime
    exact ⟨err, s', hrun⟩

theorem hasOffer_eq (s : Node) (offerId : Nat) :
    s.hasOffer offerId = (s.getOffer offerId).isSome := by
  rw [Bool.eq_iff_iff, Node.hasOffer, decide_eq_true_iff, Node.getOffer, AList.lookup_isSome]

theorem proved_canFire {r' : OfferRef} {o : Offer} {d : OfferState} (ho : s.offers[r]? = some o)
    (hmodel : o.isModel = true) (hd : OfferTrigger.receiveCommitmentProof.dest o.state = some d) :
    (s.entered r o d k).CanFire r' .foundMatch ↔ r' = r ∨ s.CanFire r' .foundMatch := by
  obtain ⟨-, rfl⟩ := receiveCommitmentProof_dest hd
  by_cases hr : r' = r
  · subst hr
    exact iff_of_true ⟨_, entered_self ho, hmodel, _, rfl⟩ (.inl rfl)
  · unfold Node.CanFire
    rw [entered_other hr]
    exact (or_iff_right hr).symm

theorem matched_returns_iff {m : Match} : EStateM.Returns (matched m) s ↔
    ∃ r, m.offer = some r ∧ s.CanFire r .foundMatch := by
  refine EStateM.returns_iff_of ?_ fun hmatch => ?_
  · rintro ⟨r, hr, o, ho, hmodel, d, hd⟩
    obtain rfl := foundMatch_dest hd
    exact ⟨(), _, matched_ok hr ho hmodel hd⟩
  · obtain ⟨err, hrun⟩ := matched_error hmatch
    exact ⟨err, s, hrun⟩

end

section

variable {s : Node} {env : Env}

/-- An order is processed when every entry it takes can be taken, and its rest can be offered. -/
theorem processOrder_returns_iff {order : LimitOrder} {taken : List OfferBookEntry} {rest : Number}
    (hs : Sound s)
    (h : matchLimit s.offerBook order.price order.orderType order.amount = .ok (taken, rest)) :
    EStateM.Returns (processOrder env order) s ↔ (∀ e ∈ taken, CanTake s e) ∧
      (rest.positive = true → ∃ o, order.makeOffer env rest = .ok o ∧ CanOffer s o) := by
  let s₀ : Node := { s with orders := s.orders.insert order.orderId order }
  have hknown : ∀ r ∈ s₀.models, r < s₀.offers.length := hs.known
  have hcan (e : OfferBookEntry) : CanTake s₀ e ↔ CanTake s e :=
    ⟨fun ⟨h1, h2, h3, h4⟩ => ⟨h1, h2, h3, h4⟩, fun ⟨h1, h2, h3, h4⟩ => ⟨h1, h2, h3, h4⟩⟩
  have htaken : EStateM.Returns (takeOffers env order.orderId taken) s₀ ↔
      ∀ e ∈ taken, CanTake s e :=
    (takeOffers_returns_iff hknown (matchLimit_nodup h)).trans (forall₂_congr fun e _ => hcan e)
  -- no taken offer equals the one for the rest: its type is the other one
  have hrest {s₁ : Node} (hrun : (takeOffers env order.orderId taken).run s₀ = .ok () s₁) :
      EStateM.Returns
        (if rest.positive then offerRest env order rest else pure () : NodeM Unit) s₁ ↔
        (rest.positive = true → ∃ o, order.makeOffer env rest = .ok o ∧ CanOffer s o) := by
    split
    next hpos =>
      rw [offerRest_returns_iff]
      refine Iff.trans (exists_congr fun o => and_congr_right fun ho => ?_)
        (imp_iff_right hpos).symm
      refine canOffer_after hknown hrun ?_
      intro e he
      have htype : e.offer.type ≠ o.type := (LimitOrder.makeOffer_ok ho).2.1 ▸ matchLimit_type h he
      have : e.takeOffer.type ≠ o.type := htype
      simp [BasicOffer.equals, this]
    next hpos => exact iff_of_true rfl fun hp => absurd hp hpos
  rw [EStateM.Returns, processOrder_run h]
  change EStateM.Returns _ s₀ ↔ _
  rw [EStateM.returns_bind, ← htaken]
  constructor
  · rintro ⟨_, s₁, hrun, hret⟩
    exact ⟨EStateM.returns_of_ok hrun, (hrest hrun).mp hret⟩
  · rintro ⟨hret, hpos⟩
    obtain ⟨_, s₁, hrun⟩ := EStateM.returns_iff.mp hret
    exact ⟨(), s₁, hrun, (hrest hrun).mpr hpos⟩

theorem handleNewLimitOrder_returns_iff (hs : Sound s) (data : OrderData) :
    EStateM.Returns (handleNewLimitOrder env data) s ↔ Handles env s (.newLimitOrder data) := by
  let order := LimitOrder.fromDict env data
  obtain ⟨taken, rest, h⟩ := matchLimit_ok s.offerBook order.price order.orderType order.amount
  refine (processOrder_returns_iff hs h).trans ⟨fun hcan taken' rest' h' => ?_, fun hcan =>
    hcan taken rest h⟩
  cases h.symm.trans h'
  exact hcan

theorem openOffers_nil_iff {l : List (Nat × OfferRef)} : s.openOffers l = .ok [] ↔
    ∀ x ∈ l, ∃ o, s.offers[x.2]? = some o ∧ o.isModel = true ∧ o.state.status ≠ .open_ := by
  induction l with
  | nil => exact iff_of_true rfl (by simp)
  | cons x l ih =>
    rw [openOffers_cons, List.forall_mem_cons, ← ih]
    constructor
    · rintro ⟨o, others, ho, hmodel, hl, h⟩
      split at h
      · cases h
      next hne => exact ⟨⟨o, ho, hmodel, hne⟩, h ▸ hl⟩
    · rintro ⟨⟨o, ho, hmodel, hne⟩, hl⟩
      exact ⟨o, [], ho, hmodel, hl, (if_neg hne).symm⟩

theorem handleCancelLimitOrder_returns_iff (orderId : Nat) :
    EStateM.Returns (handleCancelLimitOrder orderId) s ↔
      Handles env s (.cancelLimitOrder orderId) := by
  unfold handleCancelLimitOrder cancelOrder
  rw [EStateM.returns_seq (EStateM.run_get s)]
  change _ ↔ ∃ order, s.orders.lookup orderId = some order ∧ ∀ x ∈ order.correspondingOffers,
    ∃ o, s.offers[x.2]? = some o ∧ o.isModel = true ∧ o.state.status ≠ .open_
  cases horder : s.orders.lookup orderId with
  | none => exact ⟨nofun, fun ⟨_, h, _⟩ => by cases h⟩
  | some order =>
    have hiff : (∃ order', some order = some order' ∧ ∀ x ∈ order'.correspondingOffers,
        ∃ o, s.offers[x.2]? = some o ∧ o.isModel = true ∧ o.state.status ≠ .open_) ↔
        s.openOffers order.correspondingOffers = .ok [] := by
      rw [openOffers_nil_iff]
      exact ⟨by rintro ⟨_, ⟨⟩, h⟩; exact h, fun h => ⟨order, rfl, h⟩⟩
    rw [hiff]
    simp only
    cases s.openOffers order.correspondingOffers with
    | error err => exact iff_of_false nofun fun h => by cases h
    | ok rs =>
      rw [EStateM.returns_seq (EStateM.run_ofExcept_ok rs s)]
      cases rs with
      | nil => exact iff_of_true rfl rfl
      | cons r rs =>
        -- an open offer is timed out, then its timer is looked up by the offer
        rw [timeoutOffers, EStateM.returns_bind]
        exact iff_of_false (by rintro ⟨_, _, -, hret⟩; cases hret) fun h => by cases h

theorem handleOfferTimeout_returns_iff (offerId date : Nat) :
    EStateM.Returns (handleOfferTimeout offerId) s ↔
      Handles env s (.offerTimeout offerId date) := by
  unfold handleOfferTimeout
  rw [EStateM.returns_seq (EStateM.run_get s)]
  change _ ↔ ∀ r, s.getOffer offerId = some r → s.CanFire r .timeout
  cases hr : s.getOffer offerId with
  | none =>
    have hno : s.hasOffer offerId = false := by
      rw [Node.hasOffer, decide_eq_false_iff_not, ← AList.lookup_eq_none]; exact hr
    simp only [hno, Bool.false_eq_true, if_false]
    refine iff_of_true ?_ fun r h => by cases h
    split
    next hbook =>
      obtain ⟨book, hrun, -⟩ := removeFromBook_ok hbook
      rw [EStateM.returns_seq hrun]
      rfl
    · rfl
  | some r =>
    have hyes : s.hasOffer offerId = true := by
      rw [Node.hasOffer, decide_eq_true_iff, ← AList.lookup_isSome]
      exact Option.isSome_iff_exists.mpr ⟨r, hr⟩
    simp only [hyes, if_true]
    refine (EStateM.returns_of_returns ?_).trans ?_
    · exact fun _ _ => rfl
    rw [callOffer?_returns_iff (by rintro ⟨⟩)]
    constructor
    · rintro ⟨r', hr', hfire⟩ r'' hr''
      exact Option.some.inj (hr'.symm.trans hr'') ▸ hfire
    · intro h
      exact ⟨r, rfl, h r rfl⟩

theorem handleOfferPublished_returns_iff (e : OfferBookEntry) :
    EStateM.Returns (handleOfferPublished env e) s ↔ Handles env s (.offerPublished e) := by
  unfold handleOfferPublished
  rw [EStateM.returns_seq (EStateM.run_get s)]
  change _ ↔ match s.getOffer e.offerId with
    | some r => s.CanFire r .receivedOffer
    | none => (∃ price, e.price = .ok price) ∧ s.Startable e.offerId ∧
        e.offer.timeoutDate ≤ maxTimestamp
  rw [hasOffer_eq]
  cases hr : s.getOffer e.offerId with
  | some r =>
    simp only [Option.isSome_some, if_true]
    rw [callOffer?_returns_iff (by rintro ⟨⟩)]
    exact ⟨fun ⟨r', hr', hfire⟩ => Option.some.inj hr' ▸ hfire, fun h => ⟨r, rfl, h⟩⟩
  | none =>
    simp only [Option.isSome_none, Bool.false_eq_true, if_false]
    cases hprice : e.price with
    | error err =>
      rw [OfferBook.insertOffer_error hprice]
      exact iff_of_false nofun (by rintro ⟨⟨_, ⟨⟩⟩, -⟩)
    | ok p =>
      obtain ⟨book, hbook⟩ := OfferBook.insertOffer_ok (b := s.offerBook) hprice
      rw [hbook, EStateM.returns_seq (EStateM.run_ofExcept_ok book s),
        EStateM.returns_seq (EStateM.run_modify _ _)]
      refine (EStateM.returns_of_returns ?_).trans ?_
      · exact fun _ _ => rfl
      rw [createNewTimeout_returns_iff]
      exact ⟨fun h => ⟨⟨p, rfl⟩, h⟩, fun h => h.2⟩

/-- The model of an offer that completes is found. -/
theorem handleTransferReceived_returns_iff (hs : Sound s) (e : PaymentReceivedEvent) :
    EStateM.Returns (handleTransferReceived e) s ↔ Handles env s (.transferReceived e) := by
  unfold handleTransferReceived
  rw [EStateM.returns_seq (EStateM.run_get s)]
  change _ ↔ ∃ m r, s.matchesById.lookup e.identifier = some m ∧ m.offer = some r ∧
    s.CanFire r .receivedInbound
  cases hm : s.matchesById.lookup e.identifier with
  | none => exact iff_of_false nofun (by rintro ⟨m, r, ⟨⟩, -⟩)
  | some m =>
    simp only
    unfold receivedInbound
    cases hr : m.offer with
    | none => exact iff_of_false nofun (by rintro ⟨m', r, ⟨⟩, hr', -⟩; rw [hr] at hr'; cases hr')
    | some r =>
      simp only
      have hiff : (∃ m' r', some m = some m' ∧ m'.offer = some r' ∧
          s.CanFire r' .receivedInbound) ↔ s.CanFire r .receivedInbound := by
        constructor
        · rintro ⟨m', r', ⟨⟩, hr', h⟩
          exact Option.some.inj (hr.symm.trans hr') ▸ h
        · exact fun h => ⟨m, r, rfl, hr, h⟩
      rw [hiff]
      by_cases hfire : s.CanFire r .receivedInbound
      swap
      · obtain ⟨err, hrun⟩ := callOffer_error (k := { raidenEvent := some e }) hfire
        exact iff_of_false (EStateM.not_returns_of_error (EStateM.run_seq_error hrun)) hfire
      refine iff_of_true ?_ hfire
      obtain ⟨o, ho, hmodel, d, hd⟩ := hfire
      have hstate : o.state ≠ .completed := fun hc => by rw [hc, completed_dest] at hd; cases hd
      have hset := entered_self (d := d) (k := { raidenEvent := some e }) ho
      rw [EStateM.returns_seq (callOffer_ok ho hmodel hd fun _ => rfl),
        EStateM.returns_seq (readOffer_ok hset)]
      split
      · have hfind := (hs.entered (d := d) (k := { raidenEvent := some e }) ho hstate).findModel
          hset (hs.added r o ho hmodel hstate)
        rw [EStateM.returns_seq (EStateM.run_modify _ _)]
        have hfind' : ((s.entered r o d { raidenEvent := some e }).cleanUpTimeout
            e.identifier).findModel r (o.enter d { raidenEvent := some e }) = some r := hfind
        exact EStateM.returns_of_ok (removeModel_ok hfind')
      · rfl

theorem handleTakerCall_returns_iff (offerId : Nat) (initiator : Address) (p : CommitmentProof) :
    EStateM.Returns (handleTakerCall offerId initiator p) s ↔
      Handles env s (.takerCall offerId initiator p) :=
  matched_returns_iff (s := { s with matchesById := s.matchesById.insert offerId _ })

/-- An offer that is proved can be matched. -/
theorem handleCommitmentProof_returns_iff (p : CommitmentProof) :
    EStateM.Returns (handleCommitmentProof (s.getOffer p.offerId) p) s ↔
      Handles env s (.commitmentProof p) := by
  change _ ↔ ∃ r o, s.getOffer p.offerId = some r ∧ s.offers[r]? = some o ∧
    s.CanFire r .receiveCommitmentProof ∧ ∀ m, s.matchesById.lookup o.offerId = some m →
      ∃ r', m.offer = some r' ∧ (r' = r ∨ s.CanFire r' .foundMatch)
  unfold handleCommitmentProof
  cases hr : s.getOffer p.offerId with
  | none => exact iff_of_false nofun (by rintro ⟨r, o, ⟨⟩, -⟩)
  | some r =>
    simp only
    by_cases hfire : s.CanFire r .receiveCommitmentProof
    swap
    · obtain ⟨err, hrun⟩ := callOffer_error (k := { proof := some p }) hfire
      refine iff_of_false (EStateM.not_returns_of_error (EStateM.run_seq_error hrun)) ?_
      rintro ⟨r', o, ⟨⟩, -, h, -⟩
      exact hfire h
    obtain ⟨o, ho, hmodel, d, hd⟩ := id hfire
    have hiff : (∃ r' o', some r = some r' ∧ s.offers[r']? = some o' ∧
        s.CanFire r' .receiveCommitmentProof ∧ ∀ m, s.matchesById.lookup o'.offerId = some m →
          ∃ r'', m.offer = some r'' ∧ (r'' = r' ∨ s.CanFire r'' .foundMatch)) ↔
        ∀ m, s.matchesById.lookup o.offerId = some m →
          ∃ r'', m.offer = some r'' ∧ (r'' = r ∨ s.CanFire r'' .foundMatch) := by
      constructor
      · rintro ⟨r', o', ⟨⟩, ho', -, h⟩
        exact Option.some.inj (ho.symm.trans ho') ▸ h
      · exact fun h => ⟨r, o, rfl, ho, hfire, h⟩
    have hset := entered_self (d := d) (k := { proof := some p }) ho
    rw [hiff, EStateM.returns_seq (callOffer_ok ho hmodel hd nofun),
      EStateM.returns_seq (readOffer_ok hset),
      EStateM.returns_seq (EStateM.run_get _)]
    have hlookup : (s.entered r o d { proof := some p }).matchesById.lookup
        (o.enter d { proof := some p }).offerId = s.matchesById.lookup o.offerId := rfl
    rw [hlookup]
    cases s.matchesById.lookup o.offerId with
    | none => exact iff_of_true rfl fun m h => by cases h
    | some m =>
      simp only
      refine (EStateM.returns_of_returns ?_).trans ?_
      · exact fun _ _ => rfl
      rw [matched_returns_iff]
      have hproved (r' : OfferRef) : (s.entered r o d { proof := some p }).CanFire r' .foundMatch ↔
          r' = r ∨ s.CanFire r' .foundMatch := proved_canFire ho hmodel hd
      simp only [hproved]
      exact ⟨fun h m' hm' => Option.some.inj hm' ▸ h, fun h => h m rfl⟩

theorem handleStateChange_returns_iff (hs : Sound s) (sc : StateChange) :
    EStateM.Returns (handleStateChange env sc) s ↔ Handles env s sc := by
  cases sc with
  | newLimitOrder data => exact handleNewLimitOrder_returns_iff hs data
  | cancelLimitOrder orderId => exact handleCancelLimitOrder_returns_iff orderId
  | offerTimeout offerId date => exact handleOfferTimeout_returns_iff offerId date
  | commitmentProof p =>
    exact (EStateM.returns_seq (EStateM.run_get s)).trans (handleCommitmentProof_returns_iff p)
  | cancellationProof p =>
    exact (EStateM.returns_seq (EStateM.run_get s)).trans (callOffer?_returns_iff (by rintro ⟨⟩))
  | takerCall offerId initiator p => exact handleTakerCall_returns_iff offerId initiator p
  | offerPublished e => exact handleOfferPublished_returns_iff e
  | transferReceived e => exact handleTransferReceived_returns_iff hs e
  | channelStatus raw => exact iff_of_true rfl trivial
  | makeChannel partner token deposit => exact iff_of_true rfl trivial

end

/-! ## Runs -/

variable {C : Crypto}

theorem sound_step {a : App} (hs : Sound a.node) (i : App.Input) :
    Sound (a.step C i).node := by
  by_cases hi : ∃ env, i = .handle env
  swap
  · have hquiet := (App.step_quiet (C := C) (a := a) fun env h => hi ⟨env, h⟩).1
    exact hs.of_eq hquiet.offers hquiet.models
  obtain ⟨env, rfl⟩ := hi
  rcases App.handle_cases a env with ⟨heq, -⟩ | ⟨sc, rest, hrunning, hq⟩
  · rw [App.step, heq]; exact hs
  · rw [App.step, App.handle_cons hrunning hq]
    have hproceeds := handled_proceeds env sc a.node
    exact hproceeds.invariant hs (fun _ _ h hs => hs.effect h) (fun _ _ h hs => hs.broken h)
      fun _ h => h

theorem sound_run (market : TokenPair) (commitmentServiceAddress : Address) (is : List App.Input) :
    Sound (App.run C market commitmentServiceAddress is).node :=
  LTS.run_invariant (App.step C) (fun _ a => Sound a.node) (Sound.init market)
    (fun _ _ i hs => sound_step hs i) is

/-- The consumer takes no state change, or one that it handles. -/
def Survives (a : App) : App.Input → Prop
  | .handle env => ∀ sc ∈ a.stateChanges.head?, Handles env a.node sc
  | _ => True

theorem running_step {a : App} (hs : Sound a.node) (i : App.Input) :
    (a.step C i).running = true ↔ a.running = true ∧ Survives a i := by
  by_cases hi : ∃ env, i = .handle env
  swap
  · rw [(App.step_quiet (C := C) (a := a) fun env h => hi ⟨env, h⟩).2]
    refine (and_iff_left ?_).symm
    cases i <;> first | trivial | exact (hi ⟨_, rfl⟩).elim
  obtain ⟨env, rfl⟩ := hi
  rcases App.handle_cases a env with ⟨heq, hidle⟩ | ⟨sc, rest, hrunning, hq⟩
  · rw [App.step, heq]
    refine ⟨fun h => ⟨h, fun sc hsc => ?_⟩, And.left⟩
    rcases hidle with hidle | hidle
    · rw [hidle] at h; cases h
    · rw [hidle] at hsc; cases hsc
  · rw [App.step, App.handle_cons hrunning hq, and_iff_right hrunning]
    refine (handleStateChange_returns_iff hs sc).trans ?_
    simp [Survives, hq]

/-- In every reachable state: exactly which state changes are handled. And the node is still
running exactly when its consumer took only such state changes. -/
theorem survives_iff (C : Crypto) (market : TokenPair) (commitmentServiceAddress : Address)
    (is : List App.Input) :
    (∀ env sc, EStateM.Returns (handleStateChange env sc)
        (App.run C market commitmentServiceAddress is).node ↔
      Handles env (App.run C market commitmentServiceAddress is).node sc) ∧
    ((App.run C market commitmentServiceAddress is).running = true ↔
      LTS.AllSteps (App.step C) Survives (.init market commitmentServiceAddress) is) := by
  refine ⟨fun env sc => handleStateChange_returns_iff (sound_run ..) sc, ?_⟩
  induction is using List.reverseRecOn with
  | nil => exact iff_of_true rfl LTS.allSteps_nil
  | append_singleton is i ih =>
    rw [LTS.allSteps_concat, ← ih, App.run, LTS.run_concat]
    exact running_step (sound_run market commitmentServiceAddress is) i

/-- A broadcast offer with base amount `0` stops the node. -/
theorem free_offer_stops : (App.run .plain { baseToken := 1, quoteToken := 2 } 9
    [.broadcast { offer := { offerId := 7, askToken := 1, askAmount := 0, bidToken := 2,
                             bidAmount := 5, timeout := 100 },
                  commitmentProof := { commitmentSig := none, secret := 3, secretHash := 3,
                                       offerId := 7, signature := none },
                  signature := some 4 },
     .handle { now := 0, orderUuid := 1, offerUuid := 2 }]).running = false := by
  decide +kernel

end RaidexNode
end Raidex
