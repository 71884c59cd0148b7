import Raidex.RaidexNode.OrderAccounts
import Raidex.RaidexNode.Settles

/-!
# Raidex.RaidexNode.Timers

Every offer that a timeout is to end has its timer.

* `Watches`: each entry of the book, and each offer that may still be traded, has a timer that
  waits for its own timeout date, or that timeout is due.
* `Watches.cleanUp`: when a timer may go; `Watches.launch`: a new offer of an order.
* `offers_watched`: so it is in every run of a node.
-/

namespace Raidex
namespace RaidexNode

/-- A timer of the offer waits for this date. -/
def Node.Times (s : Node) (offerId date : Nat) : Prop :=
  ∃ t, s.timeoutGreenlets.lookup offerId = some t ∧ t.dead = false ∧ t.timeoutDate = date

/-- An offer that is in no object and not in the book. -/
structure Node.Unused (s : Node) (offerId : Nat) : Prop where
  offer : s.hasOffer offerId = false
  book : ∀ e ∈ s.offerBook.values, e.offerId ≠ offerId

/-- The timeouts `due` are not handled yet. -/
structure Watches (due : Nat → Nat → Prop) (s : Node) : Prop where
  managed : Managed s
  registered : ∀ (r : OfferRef) o, s.offers[r]? = some o → s.getOffer o.offerId = some r
  matched : ∀ id m, s.matchesById.lookup id = some m → ∀ r, m.offer = some r →
    s.getOffer id = some r
  indexed : s.offerBook.Indexed
  apart : ∀ e ∈ s.offerBook.values, s.hasOffer e.offerId = false
  offers : ∀ (r : OfferRef) o, s.offers[r]? = some o → o.state.live = true →
    s.Times o.offerId o.timeoutDate ∨ due o.offerId o.timeoutDate
  entries : ∀ e ∈ s.offerBook.values,
    s.Times e.offerId e.offer.timeoutDate ∨ due e.offerId e.offer.timeoutDate

section

variable {due due' : Nat → Nat → Prop} {s s' : Node} {id date : Nat} {env : Env}

theorem Watches.settles (hs : Watches due s) (h : Settles s s') : Watches due s' := by
  have hget (id : Nat) : s'.getOffer id = s.getOffer id := by
    unfold Node.getOffer
    rw [h.offerManager]
  have htimes (id date : Nat) : s'.Times id date ↔ s.Times id date := by
    unfold Node.Times
    rw [h.timeoutGreenlets]
  constructor
  · intro id r hr
    obtain ⟨o, ho, hid⟩ := hs.managed id r (hget id ▸ hr)
    obtain ⟨o', ho', hid'⟩ := h.kept r o ho
    exact ⟨o', ho', hid'.trans hid⟩
  · intro r o' ho'
    obtain ⟨o, ho, hbasic, -⟩ := h.offers r o' ho'
    rw [hget, hbasic]
    exact hs.registered r o ho
  · intro id m hm r hr
    rw [hget]
    rcases h.matched id m hm with hm | hm
    · exact hs.matched id m hm r hr
    · exact hm.symm.trans hr
  · rw [h.offerBook]; exact hs.indexed
  · intro e he
    unfold Node.hasOffer
    rw [h.offerManager]
    exact hs.apart e (h.offerBook ▸ he)
  · intro r o' ho' hlive
    obtain ⟨o, ho, hbasic, hlive'⟩ := h.offers r o' ho'
    rw [hbasic, htimes]
    exact hs.offers r o ho (hlive' hlive)
  · intro e he
    rw [htimes]
    exact hs.entries e (h.offerBook ▸ he)

/-! ## Timers that go -/

/-- Two objects are two offers. -/
theorem Watches.unique (hs : Watches due s) {r r' : OfferRef} {o o' : Offer}
    (ho : s.offers[r]? = some o) (ho' : s.offers[r']? = some o')
    (hid : o'.offerId = o.offerId) : r' = r := by
  have hr := hs.registered r o ho
  have hr' := hs.registered r' o' ho'
  rw [hid] at hr'
  exact Option.some.inj (hr'.symm.trans hr)

theorem times_cleanUpTimeout {id' : Nat} (hid : id' ≠ id) :
    (s.cleanUpTimeout id).Times id' date ↔ s.Times id' date := by
  unfold Node.Times Node.cleanUpTimeout
  rw [AList.lookup_erase_ne hid]

/-- The timer of an id may go, and its timeout with it, once nothing has to wait for it. -/
theorem Watches.cleanUp (hs : Watches due s)
    (hoffers : ∀ (r : OfferRef) o, s.offers[r]? = some o → o.offerId = id → o.state.live = false)
    (hentries : ∀ e ∈ s.offerBook.values, e.offerId ≠ id)
    (hdue : ∀ id' date, id' ≠ id → due id' date → due' id' date) :
    Watches due' (s.cleanUpTimeout id) where
  managed := hs.managed
  registered := hs.registered
  matched := hs.matched
  indexed := hs.indexed
  apart := hs.apart
  offers r o ho hlive := by
    have hid : o.offerId ≠ id := fun hid => by rw [hoffers r o ho hid] at hlive; cases hlive
    exact (hs.offers r o ho hlive).imp (times_cleanUpTimeout hid).mpr (hdue _ _ hid)
  entries e he :=
    (hs.entries e he).imp (times_cleanUpTimeout (hentries e he)).mpr (hdue _ _ (hentries e he))

/-- An offer that is not live any more gives up its timer. -/
theorem Watches.ended {r : OfferRef} {o : Offer} (hs : Watches due s)
    (ho : s.offers[r]? = some o) (hid : o.offerId = id) (hdead : o.state.live = false)
    (hdue : ∀ id' date, id' ≠ id → due id' date → due' id' date) :
    Watches due' (s.cleanUpTimeout id) := by
  subst hid
  refine hs.cleanUp ?_ ?_ hdue
  · intro r' o' ho' hid
    obtain rfl := hs.unique ho ho' hid
    cases ho.symm.trans ho'
    exact hdead
  · intro e he hid
    have happart := hs.apart e he
    rw [hid, Node.hasOffer, decide_eq_false_iff_not, ← AList.lookup_eq_none] at happart
    have hreg := hs.registered r o ho
    rw [Node.getOffer, happart] at hreg
    cases hreg

theorem getOffer_of_hasOffer (h : s.hasOffer id = true) : ∃ r, s.getOffer id = some r :=
  Option.isSome_iff_exists.mp (AList.lookup_isSome.mpr (of_decide_eq_true h))

theorem getOffer_eq_none (h : s.hasOffer id = false) : s.getOffer id = none :=
  AList.lookup_eq_none.mpr (of_decide_eq_false h)

/-- A timeout that is handled was of the offer, or of the entry, that is gone now. -/
theorem Watches.handleOfferTimeout (hs : Watches due s)
    (hdue : ∀ id' date, id' ≠ id → due id' date → due' id' date)
    (h : (handleOfferTimeout id).run s = .ok () s') : Watches due' s' := by
  have hno (hhas : s.hasOffer id = false) (r : OfferRef) (o : Offer)
      (ho : s.offers[r]? = some o) : o.offerId ≠ id := by
    rintro rfl
    have hreg := hs.registered r o ho
    rw [getOffer_eq_none hhas] at hreg
    cases hreg
  unfold RaidexNode.handleOfferTimeout at h
  rw [EStateM.run_bind, EStateM.run_get] at h
  simp only at h
  cases hhas : s.hasOffer id with
  | true =>
    rw [if_pos hhas] at h
    obtain ⟨r, hr⟩ := getOffer_of_hasOffer hhas
    rw [hr] at h
    obtain ⟨o, ho, rfl⟩ := hs.managed id r hr
    by_cases hfire : s.CanFire r .timeout
    · obtain ⟨o', ho', hmodel, d, hd⟩ := hfire
      cases ho.symm.trans ho'
      have hcall : (callOffer? (some r) .timeout {}).run s = .ok () (s.entered r o d {}) :=
        callOffer_ok (k := {}) ho hmodel hd fun h => by cases h
      rw [EStateM.run_seq_ok hcall] at h
      cases h
      have hdead : d.live = false := by
        simp only [OfferTrigger.dest] at hd
        split at hd
        · cases hd; rfl
        · cases hd
      exact (hs.settles (Settles.entered ho hd)).ended (entered_self ho) rfl hdead hdue
    · obtain ⟨e, hcall⟩ := callOffer_error (k := {}) hfire
      have hcall : (callOffer? (some r) .timeout {}).run s = .error e s := hcall
      rw [EStateM.run_seq_error hcall] at h
      cases h
  | false =>
    rw [if_neg (by rw [hhas]; exact Bool.false_ne_true)] at h
    cases hbook : s.offerBook.contains id with
    | true =>
      rw [if_pos hbook] at h
      obtain ⟨book, hrem, -⟩ := OfferBook.removeOffer_ok hbook
      rw [EStateM.run_seq_ok (removeFromBook_removed hrem)] at h
      cases h
      obtain ⟨hindexed, hgone⟩ := hs.indexed.remove hrem
      have hold {e : OfferBookEntry} (he : e ∈ book.values) : e ∈ s.offerBook.values :=
        OfferBook.of_mem_values_removeOffer hrem he
      have hs' : Watches due { s with offerBook := book } :=
        ⟨hs.managed, hs.registered, hs.matched, hindexed, fun e he => hs.apart e (hold he),
          hs.offers, fun e he => hs.entries e (hold he)⟩
      exact hs'.cleanUp (fun r o ho hid => absurd hid (hno hhas r o ho)) hgone hdue
    | false =>
      rw [if_neg (by rw [hbook]; exact Bool.false_ne_true)] at h
      cases h
      refine hs.cleanUp (fun r o ho hid => absurd hid (hno hhas r o ho)) ?_ hdue
      rintro e he rfl
      rw [hs.indexed.contains he] at hbook
      cases hbook

/-- Once the payment has come, the timer goes with the last trigger only. -/
theorem Watches.handleTransferReceived {e : PaymentReceivedEvent} (hs : Watches due s)
    (h : (handleTransferReceived e).run s = .ok () s') : Watches due s' := by
  unfold RaidexNode.handleTransferReceived at h
  rw [EStateM.run_bind, EStateM.run_get] at h
  simp only at h
  cases hm : s.matchesById.lookup e.identifier with
  | none => rw [hm] at h; cases h
  | some m =>
    rw [hm] at h
    simp only at h
    cases hr : m.offer with
    | none =>
      obtain ⟨_, _, hrun, -⟩ := EStateM.run_bind_eq_ok.mp h
      unfold receivedInbound at hrun
      rw [hr] at hrun
      cases hrun
    | some r =>
      obtain ⟨_, s₁, hrun, h⟩ := EStateM.run_bind_eq_ok.mp h
      unfold receivedInbound at hrun
      rw [hr] at hrun
      by_cases hfire : s.CanFire r .receivedInbound
      swap
      · obtain ⟨err, hcall⟩ := callOffer_error (k := { raidenEvent := some e }) hfire
        rw [hcall] at hrun
        cases hrun
      obtain ⟨o, ho, hmodel, d, hd⟩ := hfire
      rw [callOffer_ok ho hmodel hd fun _ => rfl] at hrun
      cases hrun
      have hs₁ := hs.settles (Settles.entered (k := { raidenEvent := some e }) ho hd)
      have hid : o.offerId = e.identifier :=
        hs.managed.offerId (hs.matched _ m hm r hr) ho
      rw [hr] at h
      simp only at h
      rw [EStateM.run_seq_ok (readOffer_ok (entered_self ho))] at h
      split at h
      next hcompleted =>
        obtain ⟨_, s₂, hclean, h⟩ := EStateM.run_bind_eq_ok.mp h
        cases hclean
        have hs₂ : Watches due _ :=
          hs₁.ended (entered_self ho) hid (by rw [hcompleted]; rfl) fun _ _ _ h => h
        have hremove := removeModel_settles r (o.enter d { raidenEvent := some e })
          ((s.entered r o d { raidenEvent := some e }).cleanUpTimeout e.identifier)
        rw [h] at hremove
        exact hs₂.settles hremove
      next => cases h; exact hs₁

/-! ## New offers -/

/-- The timers after one has been started in the place of another. -/
theorem times_restarted {lifetime : Int}
    (h : s'.timeoutGreenlets = (s.timeoutGreenlets.erase id).insert id
      { timeoutDate := date, lifetime, dead := false }) :
    s'.Times id date ∧ ∀ id' date', id' ≠ id → s.Times id' date' → s'.Times id' date' := by
  constructor
  · exact ⟨_, by rw [h]; exact AList.lookup_insert _, rfl, rfl⟩
  · rintro id' date' hid ⟨t, ht, hdead, hdate⟩
    refine ⟨t, ?_, hdead, hdate⟩
    rw [h, AList.lookup_insert_ne hid, AList.lookup_erase_ne hid]
    exact ht

theorem createNewTimeout_restarted {threshold : Nat} {b : Bool}
    (h : (createNewTimeout env id date threshold).run s = .ok b s') :
    s' = { s with timeoutGreenlets := s'.timeoutGreenlets } ∧ s'.Times id date ∧
      ∀ id' date', id' ≠ id → s.Times id' date' → s'.Times id' date' := by
  by_cases htime : s.Startable id ∧ date ≤ maxTimestamp
  · rw [createNewTimeout_ok env threshold htime.1 htime.2] at h
    cases h
    exact ⟨rfl, times_restarted rfl⟩
  · obtain ⟨err, s₁, hrun, -⟩ := createNewTimeout_error (s := s) env threshold htime
    rw [hrun] at h
    cases h

/-- An entry that is published comes with its timer. -/
theorem Watches.handleOfferPublished {e : OfferBookEntry} (hs : Watches due s)
    (hadm : s.Admits (.offerPublished e))
    (h : (handleOfferPublished env e).run s = .ok () s') : Watches due s' := by
  unfold RaidexNode.handleOfferPublished at h
  rw [EStateM.run_bind, EStateM.run_get] at h
  simp only at h
  cases hhas : s.hasOffer e.offerId with
  | true =>
    rw [if_pos hhas] at h
    have hcall : Settles s ((callOffer? (s.getOffer e.offerId) .receivedOffer {}).run s).state :=
      Settles.callOffer? _ (fun h => by cases h) s
    rw [h] at hcall
    exact hs.settles hcall
  | false =>
    rw [if_neg (by rw [hhas]; exact Bool.false_ne_true)] at h
    obtain ⟨book, s₁, hins, h⟩ := EStateM.run_bind_eq_ok.mp h
    cases hins' : s.offerBook.insertOffer e with
    | error err => rw [hins'] at hins; cases hins
    | ok book' =>
      rw [hins'] at hins
      cases hins
      obtain ⟨_, s₂, hset, h⟩ := EStateM.run_bind_eq_ok.mp h
      cases hset
      obtain ⟨b, s₃, htimeout, h⟩ := EStateM.run_bind_eq_ok.mp h
      cases h
      obtain ⟨heq, hnew, hother⟩ := createNewTimeout_restarted htimeout
      rw [heq]
      have hindexed : book.Indexed := hs.indexed.insert (hadm hhas) hins'
      have hself : e ∈ book.values := by
        cases hp : e.price with
        | error err => rw [OfferBook.insertOffer_error hp] at hins'; cases hins'
        | ok price => exact (OfferBook.mem_values_insertOffer hp hins').1
      refine ⟨hs.managed, hs.registered, hs.matched, hindexed, ?_, ?_, ?_⟩
      · intro e' he'
        rcases OfferBook.of_mem_values_insertOffer hins' he' with rfl | he'
        · exact hhas
        · exact hs.apart e' he'
      · intro r o ho hlive
        have hid : o.offerId ≠ e.offerId := by
          intro hid
          have hreg := hs.registered r o ho
          rw [hid, getOffer_eq_none hhas] at hreg
          cases hreg
        exact (hs.offers r o ho hlive).imp_left (hother _ _ hid)
      · intro e' he'
        by_cases hid : e'.offerId = e.offerId
        · obtain rfl := List.inj_on_of_nodup_map hindexed.once he' hself hid
          exact .inl hnew
        · have hold := (OfferBook.of_mem_values_insertOffer hins' he').resolve_left
            fun heq => hid (by rw [heq])
          exact (hs.entries e' hold).imp_left (hother _ _ hid)

/-- An order launches an offer under an id that no offer has. It leaves the book if it was
there. -/
theorem Watches.launch {orderId : Nat} {p : Part} (hs : Watches due s)
    (hl : Launches orderId p s s') (hnew : s.hasOffer p.offer.offerId = false)
    (hindexed : s'.offerBook.Indexed)
    (hbook : ∀ e ∈ s'.offerBook.values, e ∈ s.offerBook.values ∧ e.offerId ≠ p.offer.offerId)
    (hmatched : ∀ m, s'.matchesById.lookup p.offer.offerId = some m → ∀ r, m.offer = some r →
      r = s.nextOffer)
    (htimes : s'.Times p.offer.offerId p.offer.timeoutDate ∧
      ∀ id date, id ≠ p.offer.offerId → s.Times id date → s'.Times id date) :
    Watches due s' := by
  have hget {id : Nat} (hid : id ≠ p.offer.offerId) : s'.getOffer id = s.getOffer id := by
    unfold Node.getOffer
    rw [hl.offerManager, AList.lookup_insert_ne hid]
  have hself : s'.getOffer p.offer.offerId = some s.nextOffer := by
    unfold Node.getOffer
    rw [hl.offerManager]
    exact AList.lookup_insert _
  have hne {r : OfferRef} {o : Offer} (ho : s.offers[r]? = some o) :
      o.offerId ≠ p.offer.offerId := by
    intro hid
    have hreg := hs.registered r o ho
    rw [hid, getOffer_eq_none hnew] at hreg
    cases hreg
  have hcases {r : OfferRef} {o : Offer} (ho : s'.offers[r]? = some o) :
      s.offers[r]? = some o ∨ r = s.nextOffer ∧ o = p.initiated := by
    rw [hl.offers] at ho
    exact (List.getElem?_concat_cases ho).imp And.right id
  constructor
  · intro id r hr
    by_cases hid : id = p.offer.offerId
    · subst hid
      obtain rfl := Option.some.inj (hself.symm.trans hr)
      exact ⟨p.initiated, by rw [hl.offers]; exact List.getElem?_concat_length, rfl⟩
    · obtain ⟨o, ho, hoid⟩ := hs.managed id r ((hget hid).symm.trans hr)
      refine ⟨o, ?_, hoid⟩
      rw [hl.offers, List.getElem?_append_left (List.getElem?_eq_some_iff.mp ho).1]
      exact ho
  · intro r o ho
    rcases hcases ho with ho | ⟨rfl, rfl⟩
    · rw [hget (hne ho)]
      exact hs.registered r o ho
    · exact hself
  · intro id m hm r hr
    by_cases hid : id = p.offer.offerId
    · subst hid
      rw [hself, hmatched m hm r hr]
    · rw [hget hid]
      exact hs.matched id m ((hl.others id hid).symm.trans hm) r hr
  · exact hindexed
  · intro e he
    obtain ⟨hold, hid⟩ := hbook e he
    have hno := getOffer_eq_none (hs.apart e hold)
    rw [← hget hid] at hno
    exact decide_eq_false (AList.lookup_eq_none.mp hno)
  · intro r o ho hlive
    rcases hcases ho with ho | ⟨rfl, rfl⟩
    · exact (hs.offers r o ho hlive).imp_left (htimes.2 _ _ (hne ho))
    · exact .inl htimes.1
  · intro e he
    obtain ⟨hold, hid⟩ := hbook e he
    exact (hs.entries e hold).imp_left (htimes.2 _ _ hid)

theorem Node.Unused.takeOffer {orderId : Nat} {e : OfferBookEntry} (hs : s.Unused id)
    (hid : id ≠ e.offerId) (h : (takeOffer env orderId e).run s = .ok () s') : s'.Unused id := by
  have hl := takeOffer_launches h
  constructor
  · unfold Node.hasOffer
    rw [hl.offerManager]
    have hnot := of_decide_eq_false hs.offer
    exact decide_eq_false fun hmem => ((AList.mem_insert _).mp hmem).elim hid hnot
  · intro e' he'
    exact hs.book e' (OfferBook.of_mem_values_removeOffer (takeOffer_offerBook h) he')

theorem Watches.takeOffers {orderId : Nat} {es : List OfferBookEntry} (hs : Watches due s)
    (hnodup : (es.map OfferBookEntry.offerId).Nodup)
    (hnew : ∀ e ∈ es, s.hasOffer e.offerId = false)
    (h : (takeOffers env orderId es).run s = .ok () s') :
    Watches due s' ∧ ∀ id, id ∉ es.map OfferBookEntry.offerId → s.Unused id → s'.Unused id := by
  induction es generalizing s with
  | nil => cases h; exact ⟨hs, fun _ _ h => h⟩
  | cons e es ih =>
    obtain ⟨_, s₁, hone, h⟩ := EStateM.run_bind_eq_ok.mp h
    rw [List.map_cons, List.nodup_cons] at hnodup
    have hl := takeOffer_launches hone
    have hrem := takeOffer_offerBook hone
    obtain ⟨hindexed, hgone⟩ := hs.indexed.remove hrem
    have hs₁ : Watches due s₁ := by
      refine hs.launch hl (hnew e (List.mem_cons_self ..)) hindexed ?_ ?_ ?_
      · exact fun e' he' => ⟨OfferBook.of_mem_values_removeOffer hrem he', hgone e' he'⟩
      · intro m hm r hr
        obtain rfl := Option.some.inj ((hl.matched e rfl).symm.trans hm)
        exact (Option.some.inj hr).symm
      · obtain ⟨-, book, rfl, -⟩ := takeOffer_returned hone
        exact times_restarted initiated_timeoutGreenlets
    have hnew₁ (e' : OfferBookEntry) (he' : e' ∈ es) : s₁.hasOffer e'.offerId = false := by
      unfold Node.hasOffer
      rw [hl.offerManager]
      have hne : e'.offerId ≠ e.offerId := fun heq => hnodup.1 (heq ▸ List.mem_map_of_mem he')
      have hnot := of_decide_eq_false (hnew e' (List.mem_cons_of_mem _ he'))
      exact decide_eq_false fun hmem => ((AList.mem_insert _).mp hmem).elim hne hnot
    obtain ⟨hs', hunused⟩ := ih hs₁ hnodup.2 hnew₁ h
    refine ⟨hs', ?_⟩
    intro id hid hun
    rw [List.map_cons, List.mem_cons, not_or] at hid
    exact hunused id hid.2 (hun.takeOffer hid.1 hone)

theorem Watches.offerRest {order : LimitOrder} {amountLeft : Number} (hs : Watches due s)
    (hun : s.Unused (createRandom32BytesId env.offerUuid))
    (h : (offerRest env order amountLeft).run s = .ok () s') : Watches due s' := by
  obtain ⟨o, ho, hcan⟩ := offerRest_returns_iff.mp (EStateM.returns_of_ok h)
  have hl := offerRest_launches ho h
  rw [offerRest_ok ho hcan] at h
  cases h
  have hid : o.offerId = createRandom32BytesId env.offerUuid := (LimitOrder.makeOffer_ok ho).1
  rw [← hid] at hun
  have hbook : (s.offered env order.orderId o).offerBook = s.offerBook := updateOrder_offerBook ..
  have hmatches : (s.offered env order.orderId o).matchesById = s.matchesById :=
    updateOrder_matchesById ..
  refine hs.launch hl hun.offer (hbook ▸ hs.indexed :) ?_ ?_ ?_
  · intro e he
    have he : e ∈ s.offerBook.values := hbook ▸ he
    exact ⟨he, hun.book e he⟩
  · intro m hm r hr
    have hold := hs.matched o.offerId m (hmatches ▸ hm) r hr
    rw [getOffer_eq_none hun.offer] at hold
    cases hold
  · exact times_restarted (updateOrder_timeoutGreenlets ..)

theorem Watches.processOrder {order : LimitOrder} (hs : Watches due s)
    (hun : s.Unused (createRandom32BytesId env.offerUuid))
    (h : (processOrder env order).run s = .ok () s') : Watches due s' := by
  obtain ⟨taken, rest, hmatch⟩ := matchLimit_ok s.offerBook order.price order.orderType order.amount
  rw [processOrder_run hmatch] at h
  obtain ⟨_, s₁, hrun, h⟩ := EStateM.run_bind_eq_ok.mp h
  have hs₀ : Watches due { s with orders := s.orders.insert order.orderId order } :=
    ⟨hs.managed, hs.registered, hs.matched, hs.indexed, hs.apart, hs.offers, hs.entries⟩
  have hlisted {e : OfferBookEntry} (he : e ∈ taken) : e ∈ s.offerBook.values :=
    OfferBook.of_matchLimit hmatch he
  obtain ⟨hs₁, hunused⟩ := hs₀.takeOffers (matchLimit_nodup hmatch)
    (fun e he => hs.apart e (hlisted he)) hrun
  split at h
  · refine hs₁.offerRest (hunused _ ?_ ⟨hun.offer, hun.book⟩) h
    intro hmem
    obtain ⟨e, he, hid⟩ := List.mem_map.mp hmem
    exact hun.book e (hlisted he) hid
  · cases h; exact hs₁

theorem Watches.mono (hs : Watches due s) (hdue : ∀ id date, due id date → due' id date) :
    Watches due' s :=
  ⟨hs.managed, hs.registered, hs.matched, hs.indexed, hs.apart,
    fun r o ho hlive => (hs.offers r o ho hlive).imp_right (hdue _ _),
    fun e he => (hs.entries e he).imp_right (hdue _ _)⟩

end

/-- The id drawn for the rest of an order is of no offer. -/
def Node.Draws (env : Env) (s : Node) : StateChange → Prop
  | .newLimitOrder _ => s.Unused (createRandom32BytesId env.offerUuid)
  | _ => True

instance (s : Node) (offerId : Nat) : Decidable (s.Unused offerId) :=
  decidable_of_iff (s.hasOffer offerId = false ∧ ∀ e ∈ s.offerBook.values, e.offerId ≠ offerId)
    ⟨fun h => ⟨h.1, h.2⟩, fun h => ⟨h.offer, h.book⟩⟩

instance (env : Env) (s : Node) (sc : StateChange) : Decidable (s.Draws env sc) :=
  match sc with
  | .newLimitOrder _ => inferInstanceAs (Decidable (s.Unused _))
  | .offerPublished _ | .cancelLimitOrder _ | .offerTimeout .. | .commitmentProof _
  | .cancellationProof _ | .takerCall .. | .transferReceived _ | .channelStatus _
  | .makeChannel .. => .isTrue trivial

section

variable {due due' : Nat → Nat → Prop} {s s' : Node} {env : Env} {sc : StateChange}

/-- What a handler leaves that returns. Only a timeout takes its own out of `due`. -/
theorem Watches.handled (hs : Watches due s) (hadm : s.Admits sc) (hdraws : s.Draws env sc)
    (hdue : ∀ id date, due id date → due' id date ∨ sc = .offerTimeout id date)
    (h : (handleStateChange env sc).run s = .ok () s') : Watches due' s' := by
  have hmono (hsc : ∀ id date, sc ≠ .offerTimeout id date) (hs' : Watches due s') :
      Watches due' s' :=
    hs'.mono fun id date hd => (hdue id date hd).resolve_right (hsc id date)
  have hsettles {x : NodeM Unit} (hx : Settles s (x.run s).state) (hrun : x.run s = .ok () s') :
      Watches due s' := by
    rw [hrun] at hx
    exact hs.settles hx
  cases sc with
  | newLimitOrder data => exact hmono (fun _ _ h => by cases h) (hs.processOrder hdraws h)
  | cancelLimitOrder orderId =>
    exact hmono (fun _ _ h => by cases h) (hsettles (Settles.cancelOrder orderId s) h)
  | offerTimeout id date =>
    refine hs.handleOfferTimeout ?_ h
    intro id' date' hid hd
    rcases hdue id' date' hd with hd | heq
    · exact hd
    · cases heq
      exact absurd rfl hid
  | commitmentProof p =>
    refine hmono (fun _ _ h => by cases h) (hsettles ?_ h)
    exact Settles.handleCommitmentProof (s.getOffer p.offerId) p s
  | cancellationProof p =>
    refine hmono (fun _ _ h => by cases h) (hsettles ?_ h)
    exact Settles.callOffer? (s.getOffer p.offerId) (fun h => by cases h) s
  | takerCall offerId initiator p =>
    exact hmono (fun _ _ h => by cases h)
      (hsettles (Settles.handleTakerCall offerId initiator p s) h)
  | offerPublished e => exact hmono (fun _ _ h => by cases h) (hs.handleOfferPublished hadm h)
  | transferReceived e => exact hmono (fun _ _ h => by cases h) (hs.handleTransferReceived h)
  | channelStatus raw =>
    cases h
    exact hmono (fun _ _ h => by cases h) (hs.settles (Settles.of_eq rfl rfl rfl rfl rfl rfl))
  | makeChannel partner token deposit =>
    cases h
    exact hmono (fun _ _ h => by cases h) (hs.settles (Settles.of_eq rfl rfl rfl rfl rfl rfl))

end

/-! ## Runs -/

namespace App

/-- The timeout waits in the queue of the node. -/
def Due (a : App) (offerId date : Nat) : Prop := .offerTimeout offerId date ∈ a.stateChanges

def Draws (a : App) : Input → Prop
  | .handle env => a.running = true → ∀ sc ∈ a.stateChanges.head?, a.node.Draws env sc
  | _ => True

instance (a : App) (i : Input) : Decidable (a.Draws i) :=
  match i with
  | .handle _ => inferInstanceAs (Decidable (_ → ∀ _ ∈ _, _))
  | .postLimitOrder .. | .deleteLimitOrder .. | .makeChannel .. | .commitmentProof _
  | .cancellationProof _ | .broadcast _ | .provenOffer _ | .payment _ | .channelStatus _ | .timer _
  | .startListener | .serveCommitmentService _ | .serveRaidenListener => .isTrue trivial

/-- A timer of the offer waits for this date, or its timeout waits to be handled. -/
def Waits (a : App) (offerId date : Nat) : Prop := a.node.Times offerId date ∨ a.Due offerId date

variable {C : Crypto} {a : App} {i : Input} {id date : Nat}

theorem Waits.enqueue (h : a.Waits id date) (scs : List StateChange) :
    (a.enqueue scs).Waits id date :=
  h.imp_right fun h => List.mem_append_left _ h

/-- A timer that fires is not lost. -/
theorem Waits.fireTimer (h : a.Waits id date) (offerId : Nat) :
    (a.fireTimer offerId).Waits id date := by
  unfold App.fireTimer
  split
  · exact h
  next t ht =>
    split
    · exact h
    · by_cases hid : id = offerId
      · subst hid
        rcases h with ⟨t', ht', -, rfl⟩ | h
        · cases ht.symm.trans ht'
          exact .inr (List.mem_append_right _ (List.mem_singleton_self _))
        · exact .inr (List.mem_append_left _ h)
      · refine h.imp ?_ fun h => List.mem_append_left _ h
        rintro ⟨t', ht', hdead, hdate⟩
        exact ⟨t', (AList.lookup_insert_ne hid).trans ht', hdead, hdate⟩

theorem Waits.step (hi : ∀ env, i ≠ .handle env) (h : a.Waits id date) :
    (a.step C i).Waits id date := by
  cases i with
  | handle env => exact absurd rfl (hi env)
  | postLimitOrder uuid orderType amount price =>
    simp only [App.step, postLimitOrder]; split
    · exact h
    · exact h.enqueue _
  | deleteLimitOrder orderId =>
    simp only [App.step, deleteLimitOrder]; split
    · exact h
    · split
      · exact h.enqueue _
      · exact h
  | makeChannel _ _ _ | commitmentProof _ | cancellationProof _ => exact h.enqueue _
  | channelStatus _ => exact h
  | broadcast m =>
    simp only [App.step, receiveBroadcast]; split
    · exact h
    · exact h.enqueue _
  | provenOffer m =>
    simp only [App.step, receiveProvenOffer]; split
    · exact h
    · exact h.imp_right fun h => List.mem_append_left _ h
  | payment p => simp only [App.step, poll]; split <;> exact h
  | timer offerId => exact h.fireTimer offerId
  | startListener => simp only [App.step, startListener]; split <;> exact h
  | serveCommitmentService now =>
    obtain ⟨hnode, -, hqueue⟩ := serveCommitmentService_node (a := a) now
    unfold Waits Due
    rw [App.step, hnode, hqueue]
    exact h
  | serveRaidenListener =>
    simp only [App.step, serveRaidenListener]
    split
    · exact h
    · split
      · exact h
      · exact h
      all_goals exact h.imp_right fun h => List.mem_append_left _ h

theorem watches_step (hs : a.running = true → Watches a.Due a.node) (hadm : a.Admits i)
    (hdraws : a.Draws i) (hrun : (a.step C i).running = true) :
    Watches (a.step C i).Due (a.step C i).node := by
  by_cases hhandle : ∃ env, i = .handle env
  swap
  · have hi (env : Env) : i ≠ .handle env := fun h => hhandle ⟨env, h⟩
    obtain ⟨⟨timers, hnode⟩, hrunning⟩ := step_node (C := C) (a := a) hi
    have hs := hs (hrunning.symm.trans hrun)
    have hwaits {id date : Nat} (h : a.Waits id date) : (a.step C i).Waits id date := h.step hi
    unfold Waits at hwaits
    rw [hnode] at hwaits ⊢
    exact ⟨hs.managed, hs.registered, hs.matched, hs.indexed, hs.apart,
      fun r o ho hlive => hwaits (hs.offers r o ho hlive), fun e he => hwaits (hs.entries e he)⟩
  obtain ⟨env, rfl⟩ := hhandle
  rcases handle_cases a env with ⟨heq, -⟩ | ⟨sc, rest, hrunning, hq⟩
  · rw [App.step, heq] at hrun ⊢
    exact hs hrun
  · rw [App.step, handle_cons hrunning hq] at hrun ⊢
    obtain ⟨_, s', hok⟩ := EStateM.returns_iff.mp hrun
    have hnode : ((handleStateChange env sc).run a.node).state = s' := by rw [hok]; rfl
    simp only [dispatch, hnode]
    refine (hs hrunning).handled (hadm hrunning sc (by rw [hq]; rfl))
      (hdraws hrunning sc (by rw [hq]; rfl)) ?_ hok
    intro id date hd
    rw [Due, hq] at hd
    exact (List.mem_cons.mp hd).symm.imp_right Eq.symm

end App

/-- As long as its consumer goes on, a node has a timer for every entry of its book and for every
offer of its own that is neither traded nor withdrawn: it waits for the timeout date of the
offer, or it has fired and the timeout waits to be handled. -/
theorem offers_watched (C : Crypto) (market : TokenPair) (commitmentServiceAddress : Address)
    (is : List App.Input)
    (h : LTS.AllSteps (App.step C) (fun a i => a.Admits i ∧ a.Draws i)
      (.init market commitmentServiceAddress) is)
    (hrun : (App.run C market commitmentServiceAddress is).running = true) :
    (∀ e ∈ (App.run C market commitmentServiceAddress is).node.offerBook.values,
      (App.run C market commitmentServiceAddress is).Waits e.offerId e.offer.timeoutDate) ∧
    ∀ o ∈ (App.run C market commitmentServiceAddress is).node.offers, o.state.live = true →
      (App.run C market commitmentServiceAddress is).Waits o.offerId o.timeoutDate := by
  have hinit : Watches (App.Due (.init market commitmentServiceAddress)) (.init market) := by
    refine ⟨.init market, ?_, ?_, OfferBook.indexed_empty, ?_, ?_, ?_⟩
    all_goals simp [Node.init, OfferBook.values, OfferBook.empty, OfferView.values, OfferView.empty]
  have hinv : (App.run C market commitmentServiceAddress is).running = true →
      Watches (App.run C market commitmentServiceAddress is).Due
        (App.run C market commitmentServiceAddress is).node :=
    LTS.run_invariant_of_guard (App.step C) (fun a i => a.Admits i ∧ a.Draws i)
      (fun _ a => a.running = true → Watches a.Due a.node) (fun _ => hinit)
      (fun _ _ _ hs hi => App.watches_step hs hi.1 hi.2) is h
  have hs := hinv hrun
  refine ⟨hs.entries, ?_⟩
  intro o ho hlive
  obtain ⟨r, hr⟩ := List.mem_iff_getElem?.mp ho
  exact hs.offers r o hr hlive

/-- The offer of address `4` is taken by an order for twice its amount. The timer of the offer for
the rest fires, and its timeout is not handled yet. -/
def halfTaken : List App.Input :=
  [publication 1 2, .handle { now := 0, orderUuid := 1, offerUuid := 2 },
    .postLimitOrder 3 "SELL" (.int 10) (Float.Model.ofInt 1),
    .handle { now := 0, orderUuid := 1, offerUuid := 2 }, .timer 2]

theorem half_taken_watched :
    (∀ e ∈ (App.run .plain { baseToken := 1, quoteToken := 2 } 9 halfTaken).node.offerBook.values,
      (App.run .plain { baseToken := 1, quoteToken := 2 } 9 halfTaken).Waits e.offerId
        e.offer.timeoutDate) ∧
    ∀ o ∈ (App.run .plain { baseToken := 1, quoteToken := 2 } 9 halfTaken).node.offers,
      o.state.live = true →
        (App.run .plain { baseToken := 1, quoteToken := 2 } 9 halfTaken).Waits o.offerId
          o.timeoutDate :=
  offers_watched .plain { baseToken := 1, quoteToken := 2 } 9 halfTaken (by decide +kernel)
    (by decide +kernel)

end RaidexNode
end Raidex
