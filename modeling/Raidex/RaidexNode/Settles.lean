import Raidex.RaidexNode.Models

/-!
# Raidex.RaidexNode.Settles

What most handlers do: the offers of the node go on and get their matches.

* `Settles`: book, timers and offer manager are as before, and so is what every offer is for.
* `Settles.handleCommitmentProof`, `Settles.handleTakerCall` and so on: the handlers that do so,
  whether they return or raise.
-/

namespace Raidex
namespace RaidexNode

open EStateM (Moves)

/-- The offer is neither traded nor withdrawn yet. -/
def OfferState.live : OfferState → Bool
  | .openCancellationRequested | .canceled | .completed => false
  | _ => true

/-- Offers may go on and be matched; book and timers are as before. -/
structure Settles (s s' : Node) : Prop where
  market : s'.market = s.market
  offerBook : s'.offerBook = s.offerBook
  offerManager : s'.offerManager = s.offerManager
  timeoutGreenlets : s'.timeoutGreenlets = s.timeoutGreenlets
  matched : ∀ id m, s'.matchesById.lookup id = some m →
    s.matchesById.lookup id = some m ∨ m.offer = s.getOffer id
  offers : ∀ (r : OfferRef) o', s'.offers[r]? = some o' → ∃ o, s.offers[r]? = some o ∧
    o'.toBasicOffer = o.toBasicOffer ∧ (o'.state.live = true → o.state.live = true)
  kept : ∀ (r : OfferRef) o, s.offers[r]? = some o →
    ∃ o', s'.offers[r]? = some o' ∧ o'.offerId = o.offerId

theorem live_of_dest {t : OfferTrigger} {st d : OfferState} (h : t.dest st = some d)
    (hlive : d.live = true) : st.live = true := by
  cases t <;> cases st <;> cases h <;> first | rfl | cases hlive

namespace Settles

variable {s s' : Node} {r : OfferRef} {o : Offer} {t : OfferTrigger} {d : OfferState}
  {k : OfferKwargs}

theorem of_eq (market : s'.market = s.market) (offers : s'.offers = s.offers)
    (offerBook : s'.offerBook = s.offerBook) (offerManager : s'.offerManager = s.offerManager)
    (timeoutGreenlets : s'.timeoutGreenlets = s.timeoutGreenlets)
    (matchesById : s'.matchesById = s.matchesById) : Settles s s' := by
  refine ⟨market, offerBook, offerManager, timeoutGreenlets, ?_, ?_, ?_⟩
  · intro id m hm
    rw [matchesById] at hm
    exact .inl hm
  · intro r o ho
    rw [offers] at ho
    exact ⟨o, ho, rfl, id⟩
  · intro r o ho
    rw [← offers] at ho
    exact ⟨o, ho, rfl⟩

theorem refl (s : Node) : Settles s s := of_eq rfl rfl rfl rfl rfl rfl

theorem trans (s s₁ s₂ : Node) (h : Settles s s₁) (h' : Settles s₁ s₂) : Settles s s₂ where
  market := h'.market.trans h.market
  offerBook := h'.offerBook.trans h.offerBook
  offerManager := h'.offerManager.trans h.offerManager
  timeoutGreenlets := h'.timeoutGreenlets.trans h.timeoutGreenlets
  matched id m hm := by
    rcases h'.matched id m hm with hm | hm
    · exact h.matched id m hm
    · refine .inr (hm.trans ?_)
      unfold Node.getOffer
      rw [h.offerManager]
  offers r o₂ ho₂ := by
    obtain ⟨o₁, ho₁, hbasic₁, hlive₁⟩ := h'.offers r o₂ ho₂
    obtain ⟨o, ho, hbasic, hlive⟩ := h.offers r o₁ ho₁
    exact ⟨o, ho, hbasic₁.trans hbasic, fun hl => hlive (hlive₁ hl)⟩
  kept r o ho := by
    obtain ⟨o₁, ho₁, hid₁⟩ := h.kept r o ho
    obtain ⟨o₂, ho₂, hid₂⟩ := h'.kept r o₁ ho₁
    exact ⟨o₂, ho₂, hid₂.trans hid₁⟩

theorem entered (ho : s.offers[r]? = some o) (hd : t.dest o.state = some d) :
    Settles s (s.entered r o d k) := by
  refine ⟨rfl, rfl, rfl, rfl, fun _ _ hm => .inl hm, ?_, ?_⟩
  · intro r' o' ho'
    rcases entered_cases ho' with ⟨rfl, rfl⟩ | ⟨-, ho'⟩
    · exact ⟨o, ho, rfl, fun hlive => live_of_dest hd hlive⟩
    · exact ⟨o', ho', rfl, id⟩
  · intro r' o' ho'
    by_cases hr : r' = r
    · subst hr
      cases ho.symm.trans ho'
      exact ⟨_, entered_self ho, rfl⟩
    · exact ⟨o', (entered_other hr).trans ho', rfl⟩

variable {α β : Type}

theorem seq {x : NodeM α} {f : α → NodeM β} (hx : Moves Settles x)
    (hf : ∀ a, Moves Settles (f a)) : Moves Settles (x >>= f) := EStateM.moves_bind trans hx hf

theorem raise (e : PyError) : Moves Settles (throw e : NodeM α) := refl

theorem read : Moves Settles (get : NodeM Node) := refl

theorem readOffer (r : OfferRef) : Moves Settles (readOffer r) := by
  intro s
  cases h : s.offers[r]? with
  | none => rw [readOffer_error h]; exact refl s
  | some o => rw [readOffer_ok h]; exact refl s

theorem callOffer (r : OfferRef) {t : OfferTrigger} {k : OfferKwargs}
    (hkwargs : t = .receivedInbound → k.raidenEvent.isSome) :
    Moves Settles (callOffer r t k) := by
  intro s
  by_cases h : s.CanFire r t
  · obtain ⟨o, ho, hmodel, d, hd⟩ := h
    rw [callOffer_ok ho hmodel hd hkwargs]
    exact entered ho hd
  · obtain ⟨e, hrun⟩ := callOffer_error (k := k) h
    rw [hrun]
    exact refl s

theorem callOffer? (offer : Option OfferRef) {t : OfferTrigger}
    (ht : t ≠ .receivedInbound) : Moves Settles (callOffer? offer t {}) := by
  cases offer with
  | none => exact raise _
  | some r => exact callOffer r fun h => absurd h ht

theorem dispatchEvents (es : List Event) : Moves Settles (dispatchEvents es) :=
  EStateM.moves_modify fun _ => of_eq rfl rfl rfl rfl rfl rfl

theorem matching (m : Match) : Moves Settles (RaidexNode.matched m) := by
  unfold RaidexNode.matched
  cases m.offer with
  | none => exact raise _
  | some r =>
    refine seq (callOffer r fun h => by cases h) ?_
    intro _
    exact seq (readOffer r) fun _ => dispatchEvents _

theorem handleCommitmentProof (offer : Option OfferRef) (p : CommitmentProof) :
    Moves Settles (handleCommitmentProof offer p) := by
  unfold RaidexNode.handleCommitmentProof
  cases offer with
  | none => exact raise _
  | some r =>
    refine seq (callOffer r fun h => by cases h) fun _ => seq (readOffer r) fun o => ?_
    refine seq read ?_
    intro s
    cases s.matchesById.lookup o.offerId with
    | none => exact dispatchEvents _
    | some m => exact seq (matching m) fun _ => dispatchEvents _

/-- The match that a taker asks for is one of the offer that is kept under the id. -/
theorem handleTakerCall (offerId : Nat) (initiator : Address) (p : CommitmentProof) (s : Node) :
    Settles s ((handleTakerCall offerId initiator p).run s).state := by
  have hset : Settles s { s with
      matchesById :=
        s.matchesById.insert offerId (makerMatch (s.getOffer offerId) initiator p) } := by
    refine ⟨rfl, rfl, rfl, rfl, ?_, fun r o ho => ⟨o, ho, rfl, id⟩, fun r o ho => ⟨o, ho, rfl⟩⟩
    intro id m hm
    by_cases hid : id = offerId
    · subst hid
      obtain rfl := Option.some.inj ((AList.lookup_insert _).symm.trans hm)
      exact .inr rfl
    · exact .inl ((AList.lookup_insert_ne hid).symm.trans hm)
  have hrun : (RaidexNode.handleTakerCall offerId initiator p).run s =
      (RaidexNode.matched (makerMatch (s.getOffer offerId) initiator p)).run
        { s with
          matchesById :=
            s.matchesById.insert offerId (makerMatch (s.getOffer offerId) initiator p) } := rfl
  rw [hrun]
  exact trans _ _ _ hset (matching _ _)

theorem timeoutOffers (rs : List OfferRef) : Moves Settles (timeoutOffers rs) := by
  induction rs with
  | nil => exact refl
  | cons r rs ih =>
    exact seq (callOffer r fun h => by cases h) fun _ => seq (raise _) fun _ => ih

theorem cancelOrder (orderId : Nat) : Moves Settles (cancelOrder orderId) := by
  refine seq read ?_
  intro s
  cases s.orders.lookup orderId with
  | none => exact raise _
  | some order =>
    refine seq ?_ timeoutOffers
    cases s.openOffers order.correspondingOffers with
    | ok rs => exact refl
    | error e => exact refl

end Settles

theorem removeModel_settles (r : OfferRef) (o : Offer) : Moves Settles (removeModel r o) := by
  refine Settles.seq Settles.read ?_
  intro s
  cases s.findModel r o with
  | none => exact Settles.raise _
  | some r' => exact EStateM.moves_modify fun _ => Settles.of_eq rfl rfl rfl rfl rfl rfl

end RaidexNode
end Raidex
