import Raidex.RaidexNode.BookIndex
import Raidex.RaidexNode.Counts
import Raidex.RaidexNode.Steps

/-!
# Raidex.RaidexNode.Takes

Whether a node takes the offer of a peer twice.

* `TakenOnce`: at most one offer object takes the offer, it is in one order only, and the node
  commits to it and pays for it at most once.
* `Exclusive`: the book is indexed and holds no offer that was taken.
* `remote_offer_taken_once`: so it is in every run in which no id is published while the book
  holds it on the other side or at another price.
-/

namespace Raidex
namespace RaidexNode

open EStateM (Moves)

/-- The offer at `r` takes the offer of a peer with this id. -/
def Node.Takes (s : Node) (r : OfferRef) (offerId : Nat) : Prop :=
  ∃ o, s.offers[r]? = some o ∧ o.traderRole = .taker ∧ o.offerId = offerId

instance (s : Node) (r : OfferRef) (offerId : Nat) : Decidable (s.Takes r offerId) :=
  inferInstanceAs (Decidable (∃ o, o ∈ s.offers[r]? ∧ _))

/-- The order holds the offer at `r`. -/
def Node.Placed (s : Node) (orderId : Nat) (r : OfferRef) : Prop :=
  ∃ order, s.orders.lookup orderId = some order ∧ r ∈ order.correspondingOffers.map Prod.snd

/-- The event commits to the offer of a peer, or pays for it. -/
def Node.commitsTo (s : Node) (offerId : Nat) : Event → Bool
  | .commitmentService (.commit r) => s.Takes r offerId
  | _ => false

def Node.paysFor (s : Node) (offerId : Nat) : Event → Bool
  | .trader (.swapInit m) => m.offer.any fun r => s.Takes r offerId
  | _ => false

structure TakenOnce (s : Node) (offerId : Nat) : Prop where
  object : ∀ r r', s.Takes r offerId → s.Takes r' offerId → r = r'
  order : ∀ k k' r r', s.Takes r offerId → s.Takes r' offerId → s.Placed k r → s.Placed k' r' →
    k = k' ∧ r = r'
  committed : s.events.countP (s.commitsTo offerId) ≤ 1
  paid : s.events.countP (s.paysFor offerId) ≤ 1

/-! ## What most handlers leave as it is -/

/-- Book, orders and offer manager are as before, and so is what every offer object is. -/
structure Still (s s' : Node) : Prop where
  offerBook : s'.offerBook = s.offerBook
  orders : s'.orders = s.orders
  offerManager : s'.offerManager = s.offerManager
  length : s'.offers.length = s.offers.length
  takes : ∀ r offerId, s'.Takes r offerId ↔ s.Takes r offerId

namespace Still

theorem refl (s : Node) : Still s s := ⟨rfl, rfl, rfl, rfl, fun _ _ => Iff.rfl⟩

theorem trans (s s₁ s₂ : Node) (h : Still s s₁) (h' : Still s₁ s₂) : Still s s₂ where
  offerBook := h'.offerBook.trans h.offerBook
  orders := h'.orders.trans h.orders
  offerManager := h'.offerManager.trans h.offerManager
  length := h'.length.trans h.length
  takes r offerId := (h'.takes r offerId).trans (h.takes r offerId)

theorem of_eq {s s' : Node} (offers : s'.offers = s.offers) (offerBook : s'.offerBook = s.offerBook)
    (orders : s'.orders = s.orders) (offerManager : s'.offerManager = s.offerManager) :
    Still s s' := by
  refine ⟨offerBook, orders, offerManager, by rw [offers], ?_⟩
  intro r offerId
  unfold Node.Takes
  rw [offers]

theorem entered {s : Node} {r : OfferRef} {o : Offer} {d : OfferState} {k : OfferKwargs}
    (ho : s.offers[r]? = some o) : Still s (s.entered r o d k) := by
  refine ⟨rfl, rfl, rfl, List.length_set .., ?_⟩
  intro r' offerId
  constructor
  · rintro ⟨o', ho', hrole, hid⟩
    rcases entered_cases ho' with ⟨rfl, rfl⟩ | ⟨-, ho'⟩
    · exact ⟨o, ho, hrole, hid⟩
    · exact ⟨o', ho', hrole, hid⟩
  · rintro ⟨o', ho', hrole, hid⟩
    by_cases hr : r' = r
    · subst hr
      cases ho.symm.trans ho'
      exact ⟨_, entered_self ho, hrole, hid⟩
    · exact ⟨o', (entered_other hr).trans ho', hrole, hid⟩

variable {α β : Type}

theorem seq {x : NodeM α} {f : α → NodeM β} (hx : Moves Still x) (hf : ∀ a, Moves Still (f a)) :
    Moves Still (x >>= f) := EStateM.moves_bind trans hx hf

theorem raise (e : PyError) : Moves Still (throw e : NodeM α) := refl

theorem value (a : α) : Moves Still (pure a : NodeM α) := refl

theorem read : Moves Still (get : NodeM Node) := refl

theorem ofExcept (x : Except PyError α) : Moves Still (MonadExcept.ofExcept x : NodeM α) := by
  cases x with
  | ok a => exact refl
  | error e => exact refl

theorem readOffer (r : OfferRef) : Moves Still (readOffer r) := by
  intro s
  cases h : s.offers[r]? with
  | none => rw [readOffer_error h]; exact refl s
  | some o => rw [readOffer_ok h]; exact refl s

theorem callOffer (r : OfferRef) {t : OfferTrigger} {k : OfferKwargs}
    (hkwargs : t = .receivedInbound → k.raidenEvent.isSome) : Moves Still (callOffer r t k) := by
  intro s
  by_cases h : s.CanFire r t
  · obtain ⟨o, ho, hmodel, d, hd⟩ := h
    rw [callOffer_ok ho hmodel hd hkwargs]
    exact entered ho
  · obtain ⟨e, hrun⟩ := callOffer_error (k := k) h
    rw [hrun]
    exact refl s

theorem callOffer? (offer : Option OfferRef) {t : OfferTrigger} {k : OfferKwargs}
    (hkwargs : t = .receivedInbound → k.raidenEvent.isSome) :
    Moves Still (callOffer? offer t k) := by
  cases offer with
  | none => exact raise _
  | some r => exact callOffer r hkwargs

theorem dispatchEvents (es : List Event) : Moves Still (dispatchEvents es) :=
  EStateM.moves_modify fun _ => of_eq rfl rfl rfl rfl

theorem cleanUpTimeout (offerId : Nat) :
    Moves Still (modify fun s => s.cleanUpTimeout offerId : NodeM Unit) :=
  EStateM.moves_modify fun _ => of_eq rfl rfl rfl rfl

theorem setMatch (offerId : Nat) (m : Match) : Moves Still (setMatch offerId m) :=
  EStateM.moves_modify fun _ => of_eq rfl rfl rfl rfl

theorem matched (m : Match) : Moves Still (matched m) := by
  unfold RaidexNode.matched
  cases m.offer with
  | none => exact raise _
  | some r =>
    exact seq (callOffer r nofun) fun _ => seq (readOffer r) fun _ => dispatchEvents _

theorem removeModel (r : OfferRef) (o : Offer) : Moves Still (removeModel r o) := by
  refine seq read ?_
  intro s
  cases s.findModel r o with
  | none => exact raise _
  | some r' => exact EStateM.moves_modify fun _ => of_eq rfl rfl rfl rfl

theorem handleCommitmentProof (offer : Option OfferRef) (p : CommitmentProof) :
    Moves Still (handleCommitmentProof offer p) := by
  unfold RaidexNode.handleCommitmentProof
  cases offer with
  | none => exact raise _
  | some r =>
    refine seq (callOffer r nofun) fun _ => seq (readOffer r) fun o => seq read fun s => ?_
    cases s.matchesById.lookup o.offerId with
    | none => exact dispatchEvents _
    | some m => exact seq (matched m) fun _ => dispatchEvents _

theorem handleTakerCall (offerId : Nat) (initiator : Address) (p : CommitmentProof) :
    Moves Still (handleTakerCall offerId initiator p) :=
  seq read fun _ => seq (setMatch _ _) fun _ => matched _

theorem handleTransferReceived (e : PaymentReceivedEvent) :
    Moves Still (handleTransferReceived e) := by
  refine seq read ?_
  intro s
  cases s.matchesById.lookup e.identifier with
  | none => exact raise _
  | some m =>
    have hinbound : Moves Still (receivedInbound m e) := by
      unfold receivedInbound
      cases m.offer with
      | none => exact raise _
      | some r => exact callOffer r fun _ => rfl
    refine seq hinbound ?_
    intro _
    cases m.offer with
    | none => exact raise _
    | some r =>
      refine seq (readOffer r) ?_
      intro o
      split
      · exact seq (cleanUpTimeout _) fun _ => removeModel r o
      · exact value ()

theorem timeoutOffers (rs : List OfferRef) : Moves Still (timeoutOffers rs) := by
  induction rs with
  | nil => exact value ()
  | cons r rs ih => exact seq (callOffer r nofun) fun _ => seq (raise _) fun _ => ih

theorem cancelOrder (orderId : Nat) : Moves Still (cancelOrder orderId) := by
  refine seq read ?_
  intro s
  cases s.orders.lookup orderId with
  | none => exact raise _
  | some order => exact seq (ofExcept _) fun rs => timeoutOffers rs

end Still

/-! ## Separate offers -/

/-- No offer is taken by two objects, and no object is in two orders. -/
structure Separate (s : Node) : Prop where
  object : ∀ offerId r r', s.Takes r offerId → s.Takes r' offerId → r = r'
  known : ∀ k r, s.Placed k r → r < s.offers.length
  placed : ∀ k k' r, s.Placed k r → s.Placed k' r → k = k'

/-- The book is indexed and holds no offer that was taken. -/
structure Exclusive (s : Node) : Prop extends Separate s where
  indexed : s.offerBook.Indexed
  managed : ∀ r offerId, s.Takes r offerId → s.hasOffer offerId = true
  untaken : ∀ e ∈ s.offerBook.values, ∀ r, ¬ s.Takes r e.offerId

section

variable {s s' : Node}

/-- Some orders may have lost their offers. -/
theorem Separate.of_subset (hs : Separate s) (length : s'.offers.length = s.offers.length)
    (takes : ∀ r offerId, s'.Takes r offerId ↔ s.Takes r offerId)
    (placed : ∀ k r, s'.Placed k r → s.Placed k r) : Separate s' where
  object offerId r r' h h' := hs.object offerId r r' ((takes ..).mp h) ((takes ..).mp h')
  known k r h := length ▸ hs.known k r (placed k r h)
  placed k k' r h h' := hs.placed k k' r (placed k r h) (placed k' r h')

theorem Still.placed (h : Still s s') (k : Nat) (r : OfferRef) :
    s'.Placed k r ↔ s.Placed k r := by
  unfold Node.Placed
  rw [h.orders]

theorem Separate.still (hs : Separate s) (h : Still s s') : Separate s' :=
  hs.of_subset h.length h.takes fun k r => (h.placed k r).mp

/-- The book may have changed as well. -/
theorem Exclusive.of_still (hs : Exclusive s) (h : Still { s with offerBook := s'.offerBook } s')
    (hindexed : s'.offerBook.Indexed)
    (huntaken : ∀ e ∈ s'.offerBook.values, ∀ r, ¬ s.Takes r e.offerId) : Exclusive s' where
  toSeparate := Separate.still (s := { s with offerBook := s'.offerBook })
    ⟨hs.object, hs.known, hs.placed⟩ h
  indexed := hindexed
  managed r offerId ht := by
    unfold Node.hasOffer
    rw [h.offerManager]
    exact hs.managed r offerId ((h.takes ..).mp ht)
  untaken e he r ht := huntaken e he r ((h.takes ..).mp ht)

theorem Exclusive.still (hs : Exclusive s) (h : Still s s') : Exclusive s' := by
  refine hs.of_still (by rw [h.offerBook]; exact h) ?_ ?_
  · rw [h.offerBook]; exact hs.indexed
  · rw [h.offerBook]; exact hs.untaken

theorem takes_created (s : Node) (b : BasicOffer Number) (role : TraderRole) (r : OfferRef)
    (offerId : Nat) : (s.created b role).Takes r offerId ↔
      s.Takes r offerId ∨ r = s.nextOffer ∧ role = .taker ∧ b.offerId = offerId := by
  constructor
  · rintro ⟨o, ho, hrole, hid⟩
    rcases created_cases ho with ho | ⟨rfl, rfl⟩
    · exact .inl ⟨o, ho, hrole, hid⟩
    · exact .inr ⟨rfl, hrole, hid⟩
  · rintro (⟨o, ho, hrole, hid⟩ | ⟨rfl, hrole, hid⟩)
    · exact ⟨o, created_old ho, hrole, hid⟩
    · exact ⟨_, List.getElem?_concat_length, hrole, hid⟩

/-! ## Registering an offer -/

/-- The offer at `r` may have been put into the order. -/
structure Files (orderId : Nat) (r : OfferRef) (s s' : Node) : Prop where
  offerManager : s'.offerManager = s.offerManager
  length : s'.offers.length = s.offers.length
  takes : ∀ r' offerId, s'.Takes r' offerId ↔ s.Takes r' offerId
  placed : ∀ k r', s'.Placed k r' → s.Placed k r' ∨ k = orderId ∧ r' = r

variable {orderId : Nat} {r : OfferRef}

theorem Files.trans (s s₁ s₂ : Node) (h : Files orderId r s s₁) (h' : Files orderId r s₁ s₂) :
    Files orderId r s s₂ where
  offerManager := h'.offerManager.trans h.offerManager
  length := h'.length.trans h.length
  takes r' offerId := (h'.takes r' offerId).trans (h.takes r' offerId)
  placed k r' hp := (h'.placed k r' hp).elim (h.placed k r') .inr

theorem Still.files (h : Still s s') : Files orderId r s s' :=
  ⟨h.offerManager, h.length, h.takes, fun k r' hp => .inl ((h.placed k r').mp hp)⟩

theorem mem_setItem {key : Nat} {value : OfferRef} {l : List (Nat × OfferRef)}
    (h : r ∈ (setItem key value l).map Prod.snd) : r ∈ l.map Prod.snd ∨ r = value := by
  induction l with
  | nil => exact .inr (List.mem_singleton.mp h)
  | cons x l ih =>
    unfold setItem at h
    split at h
    · exact (List.mem_cons.mp h).symm.imp_left fun h => List.mem_cons_of_mem _ h
    · rcases List.mem_cons.mp h with h | h
      · exact .inl (List.mem_cons.mpr (.inl h))
      · exact (ih h).imp_left fun h => List.mem_cons_of_mem _ h

theorem files_updateOrder (s : Node) (orderId offerId : Nat) (r : OfferRef) :
    Files orderId r s (s.updateOrder orderId fun order =>
      { order with correspondingOffers := setItem offerId r order.correspondingOffers }) := by
  refine ⟨updateOrder_offerManager .., by rw [updateOrder_offers], ?_, ?_⟩
  · intro r' id
    unfold Node.Takes
    rw [updateOrder_offers]
  · rintro k r' ⟨order', hl, hr'⟩
    unfold Node.updateOrder at hl
    split at hl
    · exact .inl ⟨order', hl, hr'⟩
    next order horder =>
      by_cases hk : k = orderId
      · subst hk
        obtain rfl := Option.some.inj ((AList.lookup_insert _).symm.trans hl)
        exact (mem_setItem hr').imp (fun h => ⟨order, horder, h⟩) fun h => ⟨rfl, h⟩
      · exact .inl ⟨order', (AList.lookup_insert_ne hk).symm.trans hl, hr'⟩

/-- A program that files a new offer keeps the offers separate. -/
theorem Separate.files (hs : Separate s) {b : BasicOffer Number} {role : TraderRole}
    (hfresh : role = .taker → ∀ r', ¬ s.Takes r' b.offerId)
    (h : Files orderId s.nextOffer (s.created b role) s') : Separate s' := by
  have hold {k : Nat} {r' : OfferRef} (hp : s.Placed k r') : r' < s.nextOffer := hs.known k r' hp
  have hlength : s'.offers.length = s.nextOffer + 1 := by
    rw [h.length]; exact List.length_append
  constructor
  · intro offerId r₁ r₂ h₁ h₂
    rcases (takes_created ..).mp ((h.takes ..).mp h₁) with h₁ | ⟨rfl, hrole, rfl⟩
    · rcases (takes_created ..).mp ((h.takes ..).mp h₂) with h₂ | ⟨rfl, hrole, rfl⟩
      · exact hs.object offerId r₁ r₂ h₁ h₂
      · exact (hfresh hrole _ h₁).elim
    · rcases (takes_created ..).mp ((h.takes ..).mp h₂) with h₂ | ⟨rfl, -, -⟩
      · exact (hfresh hrole _ h₂).elim
      · rfl
  · intro k r' hp
    rw [hlength]
    rcases h.placed k r' hp with hp | ⟨-, rfl⟩
    · exact Nat.lt_succ_of_lt (hold hp)
    · exact Nat.lt_succ_self _
  · intro k k' r' hp hp'
    rcases h.placed k r' hp with hp | ⟨hk, hr⟩
    · rcases h.placed k' r' hp' with hp' | ⟨-, hr'⟩
      · exact hs.placed k k' r' hp hp'
      · exact absurd hr' (Nat.ne_of_lt (hold hp))
    · rcases h.placed k' r' hp' with hp' | ⟨hk', -⟩
      · exact absurd hr (Nat.ne_of_lt (hold hp'))
      · exact hk.trans hk'.symm

end

section

variable {s : Node} {env : Env} {orderId : Nat} {e : OfferBookEntry}

theorem Files.seq {r : OfferRef} {α β : Type} {x : NodeM α} {f : α → NodeM β}
    (hx : Moves (Files orderId r) x) (hf : ∀ a, Moves (Files orderId r) (f a)) :
    Moves (Files orderId r) (x >>= f) := EStateM.moves_bind Files.trans hx hf

theorem Still.createNewTimeout (offerId date threshold : Nat) :
    Moves Still (createNewTimeout env offerId date threshold) := by
  intro s
  by_cases h : s.Startable offerId ∧ date ≤ maxTimestamp
  · rw [createNewTimeout_ok env threshold h.1 h.2]
    exact of_eq rfl rfl rfl rfl
  · obtain ⟨err, s', hrun, rfl | rfl⟩ := createNewTimeout_error env threshold h
    · rw [hrun]; exact refl _
    · rw [hrun]; exact of_eq rfl rfl rfl rfl

theorem files_createNewTimeout (r : OfferRef) (offerId date threshold : Nat) :
    Moves (Files orderId r) (createNewTimeout env offerId date threshold) :=
  fun s => (Still.createNewTimeout offerId date threshold s).files

theorem files_addOffer (offerId : Nat) (r : OfferRef) :
    Moves (Files orderId r) (addOffer orderId offerId r) := by
  have hcall : Moves Still (callOffer r .initiating {}) := Still.callOffer r nofun
  unfold addOffer
  exact Files.seq (EStateM.moves_modify fun s => files_updateOrder s orderId offerId r)
    fun _ s => (hcall s).files

theorem files_removeFromBook (r : OfferRef) (offerId : Nat) :
    Moves (Files orderId r) (removeFromBook offerId) := by
  refine Files.seq (fun s => (Still.read s).files) ?_
  intro s
  refine Files.seq (fun s' => (Still.ofExcept _ s').files) ?_
  intro book
  exact EStateM.moves_modify fun s' => ⟨rfl, rfl, fun _ _ => Iff.rfl, fun _ _ => .inl⟩

variable (env orderId) in
theorem takeOffer_files (s : Node) (e : OfferBookEntry) :
    Files orderId s.nextOffer (s.created e.takeOffer .taker)
      ((takeOffer env orderId e).run s).state := by
  unfold takeOffer
  rw [EStateM.run_seq_ok (createTakeOffer_run s e)]
  refine Files.seq (files_createNewTimeout _ _ _ _) (fun started => ?_) _
  cases started with
  | false => exact fun s' => (Still.raise _ s').files
  | true =>
    exact Files.seq (fun s' => (Still.setMatch _ _ s').files) fun _ =>
      Files.seq (files_addOffer _ _) fun _ => files_removeFromBook _ _

variable (env orderId) in
theorem offerRest_files {order : LimitOrder} {amountLeft : Number} {o : BasicOffer Number}
    (h : order.makeOffer env amountLeft = .ok o) :
    Files order.orderId s.nextOffer (s.created o .maker)
      ((offerRest env order amountLeft).run s).state := by
  unfold offerRest
  rw [h, EStateM.run_seq_ok (EStateM.run_ofExcept_ok o s),
    EStateM.run_seq_ok (createMakeOffer_run s o)]
  exact Files.seq (files_createNewTimeout _ _ _ _) (fun _ => files_addOffer _ _) _

theorem takeOffer_offerBook {s₁ : Node} (h : (takeOffer env orderId e).run s = .ok () s₁) :
    s.offerBook.removeOffer e.offerId = .ok s₁.offerBook := by
  obtain ⟨hcan, -⟩ := takeOffer_returned h
  rw [takeOffer_initiated hcan.startable hcan.date hcan.distinct] at h
  unfold removeFromBook at h
  rw [EStateM.run_bind, EStateM.run_get] at h
  simp only [initiated_offerBook] at h
  cases hrem : s.offerBook.removeOffer e.offerId with
  | error err => rw [hrem] at h; cases h
  | ok book => rw [hrem] at h; cases h; rfl

/-- An offer that is taken was in the book, and is not any more. -/
theorem Exclusive.takeOffer {s₁ : Node} (hs : Exclusive s)
    (hfresh : ∀ r, ¬ s.Takes r e.offerId)
    (h : (takeOffer env orderId e).run s = .ok () s₁) : Exclusive s₁ := by
  have hfiles := takeOffer_files env orderId s e
  rw [h] at hfiles
  change Files _ _ _ s₁ at hfiles
  obtain ⟨hindexed, hgone⟩ := hs.indexed.remove (takeOffer_offerBook h)
  refine ⟨hs.toSeparate.files (fun _ => hfresh) hfiles, hindexed, ?_, ?_⟩
  · intro r offerId ht
    unfold Node.hasOffer
    rw [hfiles.offerManager]
    show decide (offerId ∈ s.offerManager.insert e.offerId s.nextOffer) = true
    rcases (takes_created ..).mp ((hfiles.takes ..).mp ht) with ht | ⟨-, -, rfl⟩
    · exact decide_eq_true
        (AList.mem_insert _ |>.mpr (.inr (of_decide_eq_true (hs.managed r _ ht))))
    · exact decide_eq_true (AList.mem_insert _ |>.mpr (.inl rfl))
  · intro e' he' r ht
    rcases (takes_created ..).mp ((hfiles.takes ..).mp ht) with ht | ⟨-, -, hid⟩
    · exact hs.untaken e' (OfferBook.of_mem_values_removeOffer (takeOffer_offerBook h) he') r ht
    · exact hgone e' he' hid.symm

theorem takeOffers_exclusive {es : List OfferBookEntry} (hs : Exclusive s)
    (hnodup : (es.map OfferBookEntry.offerId).Nodup)
    (hfresh : ∀ e ∈ es, ∀ r, ¬ s.Takes r e.offerId) :
    Separate ((takeOffers env orderId es).run s).state ∧
      (((takeOffers env orderId es).run s).returned = true →
        Exclusive ((takeOffers env orderId es).run s).state) := by
  induction es generalizing s with
  | nil => exact ⟨hs.toSeparate, fun _ => hs⟩
  | cons e es ih =>
    have he := hfresh e (List.mem_cons_self ..)
    have hfiles := takeOffer_files env orderId s e
    unfold takeOffers
    cases hrun : (RaidexNode.takeOffer env orderId e).run s with
    | error err s₁ =>
      rw [EStateM.run_seq_error hrun]
      rw [hrun] at hfiles
      exact ⟨hs.toSeparate.files (fun _ => he) hfiles, nofun⟩
    | ok a s₁ =>
      rw [EStateM.run_seq_ok hrun]
      rw [hrun] at hfiles
      rw [List.map_cons, List.nodup_cons] at hnodup
      refine ih (hs.takeOffer he hrun) hnodup.2 ?_
      intro e' he' r ht
      rcases (takes_created ..).mp ((hfiles.takes ..).mp ht) with ht | ⟨-, -, hid⟩
      · exact hfresh e' (List.mem_cons_of_mem _ he') r ht
      · refine hnodup.1 ?_
        rw [show e.offerId = e'.offerId from hid]
        exact List.mem_map_of_mem he'

theorem offerRest_exclusive {order : LimitOrder} {amountLeft : Number} (hs : Exclusive s) :
    Separate ((offerRest env order amountLeft).run s).state ∧
      (((offerRest env order amountLeft).run s).returned = true →
        Exclusive ((offerRest env order amountLeft).run s).state) := by
  cases h : order.makeOffer env amountLeft with
  | error err =>
    rw [offerRest_unpriced h]
    exact ⟨hs.toSeparate, nofun⟩
  | ok o =>
    have hfiles := offerRest_files env (s := s) h
    have hsep := hs.toSeparate.files (fun hrole => (by cases hrole)) hfiles
    refine ⟨hsep, ?_⟩
    intro hret
    obtain ⟨o', ho', hcan⟩ := offerRest_returns_iff.mp hret
    cases h.symm.trans ho'
    have hbook : ((offerRest env order amountLeft).run s).state.offerBook = s.offerBook := by
      rw [offerRest_ok h hcan]
      exact updateOrder_offerBook ..
    have htakes (r : OfferRef) (offerId : Nat) :
        ((offerRest env order amountLeft).run s).state.Takes r offerId → s.Takes r offerId := by
      intro ht
      rcases (takes_created ..).mp ((hfiles.takes ..).mp ht) with ht | ⟨-, hrole, -⟩
      · exact ht
      · cases hrole
    refine ⟨hsep, by rw [hbook]; exact hs.indexed, ?_, ?_⟩
    · intro r offerId ht
      unfold Node.hasOffer
      rw [hfiles.offerManager]
      exact decide_eq_true (AList.mem_insert _ |>.mpr
        (.inr (of_decide_eq_true (hs.managed r offerId (htakes r offerId ht)))))
    · intro e he r ht
      rw [hbook] at he
      exact hs.untaken e he r (htakes r _ ht)

/-- What a handler keeps: the offers are separate, also when it raises. -/
def Holds (x : NodeM Unit) (s : Node) : Prop :=
  Separate (x.run s).state ∧ ((x.run s).returned = true → Exclusive (x.run s).state)

theorem holds_of_still {x : NodeM Unit} (hs : Exclusive s) (h : Moves Still x) : Holds x s :=
  ⟨hs.toSeparate.still (h s), fun _ => hs.still (h s)⟩

theorem holds_seq {x : NodeM Unit} {f : Unit → NodeM Unit} (hx : Holds x s)
    (hf : ∀ t, Exclusive t → Holds (f ()) t) : Holds (x >>= f) s := by
  unfold Holds at hx ⊢
  cases h : x.run s with
  | ok a t =>
    rw [h] at hx
    rw [EStateM.run_seq_ok h]
    exact hf t (hx.2 rfl)
  | error err t =>
    rw [h] at hx
    rw [EStateM.run_seq_error h]
    exact ⟨hx.1, fun h => (by cases h)⟩

theorem placed_insert {order : LimitOrder} (hempty : order.correspondingOffers = []) {k : Nat}
    {r : OfferRef} (h : Node.Placed { s with orders := s.orders.insert order.orderId order } k r) :
    s.Placed k r := by
  obtain ⟨order', hl, hr⟩ := h
  by_cases hk : k = order.orderId
  · subst hk
    obtain rfl := Option.some.inj ((AList.lookup_insert _).symm.trans hl)
    rw [hempty] at hr
    cases hr
  · exact ⟨order', (AList.lookup_insert_ne hk).symm.trans hl, hr⟩

theorem holds_processOrder {order : LimitOrder} (hempty : order.correspondingOffers = [])
    (hs : Exclusive s) : Holds (processOrder env order) s := by
  obtain ⟨taken, rest, h⟩ := matchLimit_ok s.offerBook order.price order.orderType order.amount
  have hs₁ : Exclusive { s with orders := s.orders.insert order.orderId order } :=
    ⟨hs.toSeparate.of_subset rfl (fun _ _ => Iff.rfl) fun k r => placed_insert hempty,
      hs.indexed, hs.managed, hs.untaken⟩
  unfold Holds
  rw [processOrder_run h]
  refine holds_seq (takeOffers_exclusive hs₁ (matchLimit_nodup h) fun e he =>
    hs.untaken e (OfferBook.of_matchLimit h he)) fun t ht => ?_
  split
  · exact offerRest_exclusive ht
  · exact ⟨ht.toSeparate, fun _ => ht⟩

theorem holds_handleOfferTimeout (offerId : Nat) (hs : Exclusive s) :
    Holds (handleOfferTimeout offerId) s := by
  unfold Holds handleOfferTimeout
  rw [EStateM.run_bind, EStateM.run_get]
  simp only
  split
  · exact holds_of_still hs (Still.seq (Still.callOffer? _ nofun) fun _ => Still.cleanUpTimeout _)
  split
  next hbook =>
    refine holds_seq ?_ fun t ht => holds_of_still ht (Still.cleanUpTimeout _)
    obtain ⟨book, hrem, -⟩ := OfferBook.removeOffer_ok hbook
    have hs' : Exclusive { s with offerBook := book } :=
      hs.of_still (Still.refl _) (hs.indexed.remove hrem).1 fun e he =>
        hs.untaken e (OfferBook.of_mem_values_removeOffer hrem he)
    unfold Holds
    rw [removeFromBook_removed hrem]
    exact ⟨hs'.toSeparate, fun _ => hs'⟩
  · exact holds_of_still hs (Still.cleanUpTimeout _)

/-- An id that is published for the first time, or on the same side at the same price. -/
def Node.Admits (s : Node) : StateChange → Prop
  | .offerPublished e => s.hasOffer e.offerId = false → s.offerBook.Admits (.insert e)
  | _ => True

instance (s : Node) (sc : StateChange) : Decidable (s.Admits sc) :=
  match sc with
  | .offerPublished _ => inferInstanceAs (Decidable (_ = _ → _))
  | .newLimitOrder _ | .cancelLimitOrder _ | .offerTimeout .. | .commitmentProof _
  | .cancellationProof _ | .takerCall .. | .transferReceived _ | .channelStatus _
  | .makeChannel .. => .isTrue trivial

theorem holds_handleOfferPublished (hs : Exclusive s) (hadm : s.Admits (.offerPublished e)) :
    Holds (handleOfferPublished env e) s := by
  unfold Holds handleOfferPublished
  rw [EStateM.run_bind, EStateM.run_get]
  simp only
  split
  · exact holds_of_still hs (Still.callOffer? _ nofun)
  next hnew =>
    have hnew : s.hasOffer e.offerId = false := by simpa using hnew
    cases hins : s.offerBook.insertOffer e with
    | error err =>
      rw [EStateM.run_seq_error (EStateM.run_ofExcept_error err s)]
      exact ⟨hs.toSeparate, fun h => (by cases h)⟩
    | ok book =>
      have hs' : Exclusive { s with offerBook := book } := by
        refine hs.of_still (Still.refl _) (hs.indexed.insert (hadm hnew) hins) ?_
        intro e' he' r ht
        rcases OfferBook.of_mem_values_insertOffer hins he' with rfl | he'
        · rw [hs.managed r _ ht] at hnew
          cases hnew
        · exact hs.untaken e' he' r ht
      rw [EStateM.run_seq_ok (EStateM.run_ofExcept_ok book s)]
      have hset : Holds (modify fun s => { s with offerBook := book }) s :=
        ⟨hs'.toSeparate, fun _ => hs'⟩
      refine holds_seq hset ?_
      intro t ht
      exact holds_of_still ht (Still.seq (Still.createNewTimeout _ _ _) fun _ => Still.value ())

theorem holds_handleStateChange {sc : StateChange} (hs : Exclusive s) (hadm : s.Admits sc) :
    Holds (handleStateChange env sc) s := by
  cases sc with
  | newLimitOrder data => exact holds_processOrder rfl hs
  | cancelLimitOrder orderId => exact holds_of_still hs (Still.cancelOrder orderId)
  | offerTimeout offerId date => exact holds_handleOfferTimeout offerId hs
  | commitmentProof p =>
    exact holds_of_still hs (Still.seq Still.read fun _ => Still.handleCommitmentProof _ p)
  | cancellationProof p =>
    exact holds_of_still hs (Still.seq Still.read fun _ => Still.callOffer? _ nofun)
  | takerCall offerId initiator p =>
    exact holds_of_still hs (Still.handleTakerCall offerId initiator p)
  | offerPublished e => exact holds_handleOfferPublished hs hadm
  | transferReceived e => exact holds_of_still hs (Still.handleTransferReceived e)
  | channelStatus raw =>
    exact holds_of_still hs (Still.seq (EStateM.moves_modify fun _ => Still.of_eq rfl rfl rfl rfl)
      fun _ => Still.dispatchEvents _)
  | makeChannel partner token deposit => exact holds_of_still hs (Still.dispatchEvents _)

end

/-! ## Runs -/

theorem of_commitsTo {s : Node} {offerId : Nat} {e : Event} (h : s.commitsTo offerId e = true) :
    ∃ r, commits r e = true ∧ s.Takes r offerId := by
  unfold Node.commitsTo at h
  split at h
  next r => exact ⟨r, decide_eq_true rfl, of_decide_eq_true h⟩
  next => cases h

theorem of_paysFor {s : Node} {offerId : Nat} {e : Event} (h : s.paysFor offerId e = true) :
    ∃ r, pays r e = true ∧ s.Takes r offerId := by
  unfold Node.paysFor at h
  split at h
  next m =>
    obtain ⟨r, hm, ht⟩ := (Option.any_eq_true ..).mp h
    exact ⟨r, decide_eq_true hm, of_decide_eq_true ht⟩
  next => cases h

/-- What is counted for each object is counted for the offer that one object takes. -/
theorem countP_le_one {s : Node} {offerId : Nat} {p : OfferRef → Event → Bool} {q : Event → Bool}
    (hs : Separate s) (hp : ∀ r, s.events.countP (p r) ≤ 1)
    (hq : ∀ e, q e = true → ∃ r, p r e = true ∧ s.Takes r offerId) : s.events.countP q ≤ 1 := by
  by_cases htaken : ∃ r, s.Takes r offerId
  · obtain ⟨r, hr⟩ := htaken
    refine (List.countP_mono_left fun e _ he => ?_).trans (hp r)
    obtain ⟨r', he', hr'⟩ := hq e he
    exact hs.object offerId r' r hr' hr ▸ he'
  · refine (List.countP_eq_zero.mpr fun e _ he => ?_).trans_le (Nat.zero_le 1)
    obtain ⟨r, -, hr⟩ := hq e he
    exact htaken ⟨r, hr⟩

theorem takenOnce {s : Node} (hs : Separate s) (hc : Counted commits OfferState.initiated s)
    (hp : Counted pays OfferState.engaged s) (offerId : Nat) : TakenOnce s offerId := by
  refine ⟨hs.object offerId, fun k k' r r' h h' hk hk' => ?_,
    countP_le_one hs hc.once fun e => of_commitsTo, countP_le_one hs hp.once fun e => of_paysFor⟩
  obtain rfl := hs.object offerId r r' h h'
  exact ⟨hs.placed k k' r hk hk', rfl⟩

namespace App

/-- The consumer takes no publication of an id that the book has otherwise. -/
def Admits (a : App) : Input → Prop
  | .handle _ => a.running = true → ∀ sc ∈ a.stateChanges.head?, a.node.Admits sc
  | _ => True

instance (a : App) (i : Input) : Decidable (a.Admits i) :=
  match i with
  | .handle _ => inferInstanceAs (Decidable (_ → ∀ _ ∈ _, _))
  | .postLimitOrder .. | .deleteLimitOrder .. | .makeChannel .. | .commitmentProof _
  | .cancellationProof _ | .broadcast _ | .provenOffer _ | .payment _ | .channelStatus _ | .timer _
  | .startListener | .serveCommitmentService _ | .serveRaidenListener => .isTrue trivial

end App

structure TakesInv (a : App) : Prop where
  separate : Separate a.node
  exclusive : a.running = true → Exclusive a.node
  commits : Counted commits OfferState.initiated a.node
  pays : Counted pays OfferState.engaged a.node

variable {C : Crypto} {a : App} {i : App.Input}

theorem takesInv_step (hinv : TakesInv a) (hi : a.Admits i) : TakesInv (a.step C i) := by
  by_cases hhandle : ∃ env, i = .handle env
  swap
  · obtain ⟨⟨timers, hnode⟩, hrun⟩ := App.step_node (C := C) (a := a) fun env h => hhandle ⟨env, h⟩
    have hstill : Still a.node (a.step C i).node := by
      rw [hnode]; exact Still.of_eq rfl rfl rfl rfl
    refine ⟨hinv.separate.still hstill, ?_, ?_, ?_⟩
    · intro h
      rw [hrun] at h
      exact (hinv.exclusive h).still hstill
    · rw [hnode]; exact hinv.commits.of_eq rfl rfl
    · rw [hnode]; exact hinv.pays.of_eq rfl rfl
  obtain ⟨env, rfl⟩ := hhandle
  rcases App.handle_cases a env with ⟨heq, -⟩ | ⟨sc, rest, hrunning, hq⟩
  · rw [App.step, heq]; exact hinv
  · rw [App.step, App.handle_cons hrunning hq]
    have hadm : a.node.Admits sc := hi hrunning sc (by rw [hq]; rfl)
    have hholds : Holds (handleStateChange env sc) a.node :=
      holds_handleStateChange (hinv.exclusive hrunning) hadm
    obtain ⟨hsep, hexcl⟩ := hholds
    have hproceeds := handled_proceeds env sc a.node
    refine ⟨hsep, hexcl, ?_, ?_⟩
    · exact hproceeds.invariant hinv.commits (fun _ _ h hs => counted_commits_effect hs h)
        (fun _ _ h hs => counted_commits_broken hs h) fun _ h => h
    · exact hproceeds.invariant hinv.pays (fun _ _ h hs => counted_pays_effect hs h)
        (fun _ _ h hs => counted_pays_broken hs h) fun _ h => h

theorem exclusive_init (market : TokenPair) : Exclusive (.init market) where
  object _ r _ h _ := by obtain ⟨o, ho, -⟩ := h; cases ho
  known k r h := by obtain ⟨order, ho, -⟩ := h; cases ho
  placed k _ r h _ := by obtain ⟨order, ho, -⟩ := h; cases ho
  indexed := OfferBook.indexed_empty
  managed r _ h := by obtain ⟨o, ho, -⟩ := h; cases ho
  untaken e he := by cases he

/-- The offers of peers are taken at most once as long as no id is published while the book holds
it on the other side or at another price. -/
theorem remote_offer_taken_once (C : Crypto) (market : TokenPair)
    (commitmentServiceAddress : Address) (is : List App.Input)
    (h : LTS.AllSteps (App.step C) App.Admits (.init market commitmentServiceAddress) is)
    (offerId : Nat) : TakenOnce (App.run C market commitmentServiceAddress is).node offerId := by
  have hinit : TakesInv (.init market commitmentServiceAddress) :=
    ⟨(exclusive_init market).toSeparate, fun _ => exclusive_init market, .init market, .init market⟩
  have hinv := LTS.run_invariant_of_guard (App.step C) App.Admits (fun _ a => TakesInv a) hinit
    (fun _ _ _ hinv hi => takesInv_step hinv hi) is h
  exact takenOnce hinv.separate hinv.commits hinv.pays offerId

/-- Address `4` offers `5` for `5` under the id `7`, on this side of the market `1`, `2`. -/
def publication (askToken bidToken : Address) : App.Input :=
  .broadcast { offer := { offerId := 7, askToken := askToken, askAmount := 5, bidToken := bidToken,
                          bidAmount := 5, timeout := 100 },
               commitmentProof := { commitmentSig := none, secret := 3, secretHash := 3,
                                    offerId := 7, signature := some 9 },
               signature := some 4 }

/-- A limit order for `5` at the price `1` is posted and processed. -/
def limitOrder (uuid : Nat) (orderType : String) : List App.Input :=
  [.postLimitOrder uuid orderType (.int 5) (Float.Model.ofInt 1),
   .handle { now := 0, orderUuid := 1, offerUuid := 2 }]

/-- An id that is published once is taken once. -/
theorem published_once_taken_once : TakenOnce (App.run .plain { baseToken := 1, quoteToken := 2 } 9
    ([publication 1 2, .handle { now := 0, orderUuid := 1, offerUuid := 2 }] ++
      limitOrder 3 "SELL" ++ limitOrder 4 "BUY")).node 7 :=
  remote_offer_taken_once .plain { baseToken := 1, quoteToken := 2 } 9 _ (by decide +kernel) 7

/-- An id that is published on both sides is taken by an order on each side, and the node commits
to it twice. -/
theorem published_twice_taken_twice : ¬ TakenOnce
    (App.run .plain { baseToken := 1, quoteToken := 2 } 9
      ([publication 1 2, .handle { now := 0, orderUuid := 1, offerUuid := 2 }, publication 2 1,
        .handle { now := 0, orderUuid := 1, offerUuid := 2 }] ++
      limitOrder 3 "SELL" ++ limitOrder 4 "BUY")).node 7 := by
  intro h
  have hcommitted := h.committed
  revert hcommitted
  decide +kernel

end RaidexNode
end Raidex
