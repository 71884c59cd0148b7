import Raidex.RaidexNode.Models

/-!
# Raidex.RaidexNode.Progress

How the offers of a node progress: an offer object stays, keeps what it offers, and once it is
matched, it stays matched and keeps its proof.

* `Node.Advances`: every offer object is still there, maybe further on.
* `Managed`: the offer manager keeps each offer under its id.
-/

namespace Raidex
namespace RaidexNode

/-- The offer has a match. -/
def OfferState.engaged : OfferState → Bool
  | .pendingExchanging | .pendingWaitForRefund | .completed => true
  | _ => false

/-- The counterparty's payment has come. -/
def OfferState.executed : OfferState → Bool
  | .pendingWaitForRefund | .completed => true
  | _ => false

/-- The commitment has been proved. -/
def OfferState.proved : OfferState → Bool
  | .openProved | .openPublished => true
  | s => s.engaged

structure Offer.Later (o o' : Offer) : Prop where
  basic : o'.toBasicOffer = o.toBasicOffer
  traderRole : o'.traderRole = o.traderRole
  isModel : o'.isModel = o.isModel
  engaged : o.state.engaged = true → o'.state.engaged = true ∧ o'.proof = o.proof
  executed : o.state.executed = true → o'.state.executed = true

namespace Offer.Later

variable {o o₁ o₂ : Offer} {t : OfferTrigger} {d : OfferState} {k : OfferKwargs}

theorem refl (o : Offer) : o.Later o :=
  ⟨rfl, rfl, rfl, fun h => ⟨h, rfl⟩, id⟩

theorem trans (h : o.Later o₁) (h' : o₁.Later o₂) : o.Later o₂ where
  basic := h'.basic.trans h.basic
  traderRole := h'.traderRole.trans h.traderRole
  isModel := h'.isModel.trans h.isModel
  engaged he := by
    obtain ⟨he₁, hp₁⟩ := h.engaged he
    obtain ⟨he₂, hp₂⟩ := h'.engaged he₁
    exact ⟨he₂, hp₂.trans hp₁⟩
  executed he := h'.executed (h.executed he)

theorem offerId (h : o.Later o₁) : o₁.offerId = o.offerId := by
  rw [h.basic]

theorem enter (hd : t.dest o.state = some d) : o.Later (o.enter d k) := by
  refine ⟨rfl, rfl, rfl, ?_, ?_⟩
  · intro he
    have hd' : d.engaged = true ∧ d ≠ .openProved := by
      cases t <;> cases hs : o.state <;> rw [hs] at hd he <;> cases he <;> cases hd
      all_goals exact ⟨rfl, nofun⟩
    exact ⟨hd'.1, if_neg hd'.2⟩
  · intro he
    change d.executed = true
    cases t <;> cases hs : o.state <;> rw [hs] at hd he <;> cases he <;> cases hd
    rfl

end Offer.Later

/-- Every offer object of the first node is one of the second, maybe further on. -/
def Node.Advances (s s' : Node) : Prop :=
  ∀ (r : OfferRef) (o : Offer), s.offers[r]? = some o → ∃ o', s'.offers[r]? = some o' ∧ o.Later o'

namespace Node.Advances

variable {s s₁ s₂ : Node} {r : OfferRef} {o : Offer} {t : OfferTrigger} {d : OfferState}
  {k : OfferKwargs}

theorem of_eq (h : s₁.offers = s.offers) : s.Advances s₁ :=
  fun _ o ho => ⟨o, h ▸ ho, .refl o⟩

theorem trans (h : s.Advances s₁) (h' : s₁.Advances s₂) : s.Advances s₂ := by
  intro r o ho
  obtain ⟨o₁, ho₁, hl⟩ := h r o ho
  obtain ⟨o₂, ho₂, hl'⟩ := h' r o₁ ho₁
  exact ⟨o₂, ho₂, hl.trans hl'⟩

theorem created (b : BasicOffer Number) (role : TraderRole) : s.Advances (s.created b role) :=
  fun _ o ho => ⟨o, created_old ho, .refl o⟩

theorem entered (ho : s.offers[r]? = some o) (hd : t.dest o.state = some d) :
    s.Advances (s.entered r o d k) := by
  intro r' o' ho'
  by_cases hr : r' = r
  · subst hr
    cases ho.symm.trans ho'
    exact ⟨_, entered_self ho, .enter hd⟩
  · exact ⟨o', (entered_other hr).trans ho', .refl o'⟩

theorem exchanging {m : Match} (ho : s.offers[r]? = some o)
    (hd : OfferTrigger.foundMatch.dest o.state = some .pendingExchanging) :
    s.Advances (s.exchanging m r o) :=
  (Advances.entered ho hd).trans (.of_eq rfl)

end Node.Advances

variable {fresh : Prop} {sc : StateChange} {s s' : Node}

theorem Effect.advances (h : Effect fresh sc s s') : s.Advances s' := by
  cases h with
  | quiet h => exact .of_eq h.offers
  | created data b role _ => exact .created b role
  | taken data e _ => exact (Node.Advances.created e.takeOffer .taker).trans (.of_eq rfl)
  | entered ho hmodel hd hfires => exact .entered ho hd
  | provedMatched p hr ho hmodel hstate hm hr' ho' hmodel' hd =>
    have hproved : OfferTrigger.receiveCommitmentProof.dest _ = some .openProved :=
      congrArg _ hstate
    exact (Node.Advances.entered ho hproved).trans (.exchanging ho' hd)
  | called offerId initiator p hr ho hmodel hd =>
    exact (Node.Advances.entered ho hd).trans (.of_eq rfl)
  | completed e hm hr ho hmodel hstate hr' =>
    have hinbound : OfferTrigger.receivedInbound.dest _ = some .completed := congrArg _ hstate
    exact (Node.Advances.entered ho hinbound).trans (.of_eq rfl)

theorem Broken.advances (h : Broken sc s s') : s.Advances s' := by
  cases h with
  | unmatched p hr ho hmodel hstate hm =>
    have hproved : OfferTrigger.receiveCommitmentProof.dest _ = some .openProved :=
      congrArg _ hstate
    exact .entered ho hproved
  | called offerId initiator p => exact .of_eq rfl
  | unremoved e hm hr ho hmodel hstate =>
    have hinbound : OfferTrigger.receivedInbound.dest _ = some .completed := congrArg _ hstate
    exact (Node.Advances.entered ho hinbound).trans (.of_eq rfl)

/-! ## The offer manager -/

/-- The offer manager keeps each offer under its id. -/
def Managed (s : Node) : Prop :=
  ∀ id r, s.getOffer id = some r → ∃ o, s.offers[r]? = some o ∧ o.offerId = id

namespace Managed

theorem init (market : TokenPair) : Managed (.init market) := by
  simp [Managed, Node.init, Node.getOffer]

theorem advances (hs : Managed s) (h : s.Advances s')
    (hmanager : s'.offerManager = s.offerManager) :
    Managed s' := by
  intro id r hr
  unfold Node.getOffer at hr
  rw [hmanager] at hr
  obtain ⟨o, ho, rfl⟩ := hs id r hr
  obtain ⟨o', ho', hlater⟩ := h r o ho
  exact ⟨o', ho', hlater.offerId⟩

theorem created (hs : Managed s) (b : BasicOffer Number) (role : TraderRole) :
    Managed (s.created b role) := by
  intro id r hr
  by_cases hid : id = b.offerId
  · subst hid
    obtain rfl : s.nextOffer = r := Option.some.inj ((AList.lookup_insert ..).symm.trans hr)
    exact ⟨_, List.getElem?_concat_length, rfl⟩
  · obtain ⟨o, ho, rfl⟩ := hs id r ((AList.lookup_insert_ne hid).symm.trans hr)
    exact ⟨o, created_old ho, rfl⟩

theorem offerId {id : Nat} {r : OfferRef} {o : Offer} (hs : Managed s)
    (hr : s.getOffer id = some r) (ho : s.offers[r]? = some o) : o.offerId = id := by
  obtain ⟨o', ho', hid⟩ := hs id r hr
  cases ho.symm.trans ho'
  exact hid

theorem effect (hs : Managed s) (h : Effect fresh sc s s') : Managed s' := by
  have hadv := h.advances
  cases h with
  | quiet h => exact hs.advances hadv h.offerManager
  | created data b role _ => exact hs.created b role
  | taken data e _ => exact hs.created e.takeOffer .taker
  | entered | provedMatched | called | completed => exact hs.advances hadv rfl

theorem broken (hs : Managed s) (h : Broken sc s s') : Managed s' := by
  have hadv := h.advances
  cases h <;> exact hs.advances hadv rfl

end Managed

end RaidexNode
end Raidex
