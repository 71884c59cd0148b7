import Raidex.RaidexNode.Sources

/-!
# Raidex.RaidexNode.Strangers

Whom a node trades with, when it hears its own broadcasts.

The node does not look at the sender of a published offer: it takes those as its own whose id its
offer manager knows, and lists the others. `S` are the addresses of the peers.

* `Knows`: an id that is known stays known, and so are those of all offers of the node.
* `Traced.published`: an offer that is known is not listed.
* `App.Apart.step`: a node lists offers of peers only, and is matched with nobody else, as long as
  the offers it hears of are a peer's or known.
-/

namespace Raidex
namespace RaidexNode

/-! ## Known ids -/

structure Knows (s s' : Node) : Prop where
  keeps : ∀ id, s.hasOffer id = true → s'.hasOffer id = true
  offers : ∀ o' ∈ s'.offers, s'.hasOffer o'.offerId = true ∨ ∃ o ∈ s.offers, o.offerId = o'.offerId

namespace Knows

variable {s s₁ s' : Node} {r : OfferRef} {o : Offer} {d : OfferState} {k : OfferKwargs}
  {sc : StateChange} {fresh : Prop}

theorem of_eq (hoffers : s'.offers = s.offers) (hmanager : s'.offerManager = s.offerManager) :
    Knows s s' where
  keeps id h := by
    rw [Node.hasOffer, hmanager]
    exact h
  offers o' ho' := .inr ⟨o', hoffers ▸ ho', rfl⟩

theorem trans (h : Knows s s₁) (h' : Knows s₁ s') : Knows s s' where
  keeps id hid := h'.keeps id (h.keeps id hid)
  offers o' ho' := by
    rcases h'.offers o' ho' with hknown | ⟨o₁, ho₁, hid⟩
    · exact .inl hknown
    · rcases h.offers o₁ ho₁ with hknown | ⟨o, ho, hid'⟩
      · exact .inl (hid ▸ h'.keeps _ hknown)
      · exact .inr ⟨o, ho, hid'.trans hid⟩

theorem created (s : Node) (b : BasicOffer Number) (role : TraderRole) :
    Knows s (s.created b role) where
  keeps id h := by
    simp only [Node.hasOffer, Node.created, AList.mem_insert, decide_eq_true_eq] at h ⊢
    exact .inr h
  offers o' ho' := by
    rcases List.mem_append.mp ho' with ho' | ho'
    · exact .inr ⟨o', ho', rfl⟩
    · left
      rw [List.mem_singleton.mp ho']
      exact decide_eq_true ((AList.mem_insert _).mpr (.inl rfl))

theorem entered (ho : s.offers[r]? = some o) : Knows s (s.entered r o d k) where
  keeps id h := h
  offers o' ho' := by
    right
    rcases List.mem_or_eq_of_mem_set ho' with ho' | rfl
    · exact ⟨o', ho', rfl⟩
    · exact ⟨o, List.mem_of_getElem? ho, rfl⟩

theorem effect (h : Effect fresh sc s s') : Knows s s' := by
  cases h with
  | quiet h => exact of_eq h.offers h.offerManager
  | created data b role _ => exact created s b role
  | taken data e _ => exact (created s e.takeOffer .taker).trans (of_eq rfl rfl)
  | entered ho => exact entered ho
  | provedMatched p hr ho hmodel hstate hm hr' ho' =>
    exact (entered ho).trans ((entered ho').trans (of_eq rfl rfl))
  | called offerId initiator p hr ho => exact (entered ho).trans (of_eq rfl rfl)
  | completed e hm hr ho => exact (entered ho).trans (of_eq rfl rfl)

theorem broken (h : Broken sc s s') : Knows s s' := by
  cases h with
  | unmatched p hr ho => exact entered ho
  | called => exact of_eq rfl rfl
  | unremoved e hm hr ho => exact (entered ho).trans (of_eq rfl rfl)

theorem step (C : Crypto) (a : App) (i : App.Input) : Knows a.node (a.step C i).node := by
  rcases a.step_cases C i with ⟨hquiet, -⟩ | ⟨env, sc, rest, -, -, -, hnode, -⟩
  · exact of_eq hquiet.offers hquiet.offerManager
  · rw [hnode]
    exact (handled_proceeds env sc a.node).invariant (P := Knows a.node) (of_eq rfl rfl)
      (fun _ _ heff h => h.trans (effect heff)) (fun _ _ hbroken h => h.trans (broken hbroken))
      fun _ h => h

end Knows

/-! ## Publications -/

theorem handleOfferPublished_known {s : Node} {e : OfferBookEntry}
    (h : s.hasOffer e.offerId = true) (env : Env) :
    Shelves s ((handleOfferPublished env e).run s).state := by
  unfold handleOfferPublished
  rw [EStateM.run_bind, EStateM.run_get]
  simp only [h, if_true]
  exact Shelves.settling (Settles.callOffer? _ fun h => by cases h) s

/-- Whoever publishes an offer, no match comes of it at once. -/
theorem Traced.published {R : Address → Nat → CommitmentProof → Prop}
    {T : Address → BasicOffer Number → Prop} {own : Address} {s : Node} (hs : Traced R T own s)
    (env : Env) (e : OfferBookEntry) :
    Traced R T own ((handleStateChange env (.offerPublished e)).run s).state := by
  refine (handled_proceeds env (.offerPublished e) s).invariant hs ?_ ?_ fun _ h => h
  · intro s s' heff hs
    cases heff with
    | quiet h => exact hs.quiet h
    | entered ho hmodel hd hfires =>
      refine hs.entered ho hd fun ht => ?_
      cases hfires
      cases ht
  · intro s s' hbroken hs
    cases hbroken

/-! ## Steps -/

namespace App

section

variable (S : Address → Prop) (own : Address)

/-- What the node hears is of a peer, or of an offer that it knows. -/
def Input.Apart (C : Crypto) (a : App) : Input → Prop
  | .broadcast m => ∀ e, ProvenOffer.toEntry C a.node.market m = some e →
      S e.initiator ∨ a.node.hasOffer e.offerId = true
  | .provenOffer m => ∀ initiator, sender C m = .ok initiator → S initiator
  | _ => True

/-- The node lists offers of peers only, and all its matches are with peers. -/
structure Apart (market : TokenPair) (a : App) : Prop where
  market : a.node.market = market
  known : ∀ o ∈ a.node.offers, a.node.hasOffer o.offerId = true
  listed : ∀ e ∈ a.node.offerBook.values, S e.initiator
  matched : Traced (fun _ _ _ => True) (fun a _ => S a) own a.node
  published : ∀ e, .offerPublished e ∈ a.stateChanges →
    S e.initiator ∨ a.node.hasOffer e.offerId = true
  called : ∀ offerId initiator p, .takerCall offerId initiator p ∈ a.stateChanges → S initiator

end

namespace Apart

variable {S : Address → Prop} {own : Address} {C : Crypto} {market : TokenPair} {a : App}
  {i : Input}

theorem init (market : TokenPair) (commitmentServiceAddress : Address) :
    Apart S own market (.init market commitmentServiceAddress) where
  market := rfl
  known o ho := by cases ho
  listed e he := by
    simp [App.init, Node.init, OfferBook.values, OfferBook.empty, OfferView.values,
      OfferView.empty] at he
  matched := .init market
  published e he := by cases he
  called offerId initiator p h := by cases h

/-- What is handled keeps book and matches to peers. -/
theorem handled (h : Apart S own market a) {sc : StateChange} (hsc : sc ∈ a.stateChanges)
    (env : Env) : (((handleStateChange env sc).run a.node).state.market = market ∧
      ∀ e ∈ ((handleStateChange env sc).run a.node).state.offerBook.values, S e.initiator) ∧
      Traced (fun _ _ _ => True) (fun a _ => S a) own
        ((handleStateChange env sc).run a.node).state := by
  have hentries : ∀ e ∈ a.node.offerBook.values,
      e.Traced (fun _ _ _ => True) (fun a _ => S a) := fun e he => ⟨trivial, h.listed e he⟩
  have hshelved {s' : Node} (hs : Shelves a.node s') :
      s'.market = market ∧ ∀ e ∈ s'.offerBook.values, S e.initiator :=
    ⟨hs.market.trans h.market, fun e he => h.listed e (hs.offerBook e he)⟩
  by_cases hpublished : ∃ e, sc = .offerPublished e
  · obtain ⟨e, rfl⟩ := hpublished
    refine ⟨?_, h.matched.published env e⟩
    rcases h.published e hsc with hpeer | hknown
    · obtain ⟨hmarket, hvalues⟩ := handleOfferPublished_shelves env e a.node
      refine ⟨hmarket.trans h.market, ?_⟩
      intro e' he'
      rcases hvalues e' he' with rfl | he'
      · exact hpeer
      · exact h.listed e' he'
    · exact hshelved (handleOfferPublished_known hknown env)
  · have hno (e : OfferBookEntry) : sc ≠ .offerPublished e := fun he => hpublished ⟨e, he⟩
    refine ⟨hshelved (Shelves.handleStateChange env hno a.node), ?_⟩
    refine h.matched.handled hentries ?_ env
    cases sc with
    | offerPublished e => exact absurd rfl (hno e)
    | takerCall offerId initiator p =>
      exact ⟨trivial, ⟨offerId, .buy, .int 0, .int 0, 0⟩, h.called offerId initiator p hsc, rfl⟩
    | _ => trivial

theorem step (h : Apart S own market a) (hi : i.Apart S C a) :
    Apart S own market (a.step C i) := by
  have hknows := Knows.step C a i
  have hknown : ∀ o ∈ (a.step C i).node.offers, (a.step C i).node.hasOffer o.offerId = true := by
    intro o' ho'
    rcases hknows.offers o' ho' with hknown | ⟨o, ho, hid⟩
    · exact hknown
    · exact hid ▸ hknows.keeps _ (h.known o ho)
  have hpublished (e : OfferBookEntry) (he : .offerPublished e ∈ (a.step C i).stateChanges) :
      S e.initiator ∨ (a.step C i).node.hasOffer e.offerId = true := by
    refine Or.imp_right (hknows.keeps _) ?_
    rcases stateChanges_step he with he | he
    · exact h.published e he
    · obtain ⟨m, rfl, hentry⟩ := he
      exact hi e hentry
  have hcalled (offerId : Nat) (initiator : Address) (p : CommitmentProof)
      (hc : .takerCall offerId initiator p ∈ (a.step C i).stateChanges) : S initiator := by
    rcases stateChanges_step hc with hc | hc
    · exact h.called offerId initiator p hc
    · obtain ⟨m, rfl, -, -, hsender, -⟩ := hc
      exact hi initiator hsender
  by_cases hhandle : ∃ env, i = .handle env
  swap
  · obtain ⟨⟨timers, hnode⟩, -⟩ := step_node (C := C) (a := a) fun env h => hhandle ⟨env, h⟩
    refine ⟨?_, hknown, ?_, ?_, hpublished, hcalled⟩ <;> rw [hnode]
    · exact h.market
    · exact h.listed
    · exact h.matched.quiet (.of_eq rfl rfl rfl rfl rfl)
  obtain ⟨env, rfl⟩ := hhandle
  rcases handle_cases a env with ⟨heq, -⟩ | ⟨sc, rest, hrun, hq⟩
  · rw [App.step, heq]
    exact h
  have hnode : (a.step C (.handle env)).node = ((handleStateChange env sc).run a.node).state := by
    rw [App.step, handle_cons hrun hq]
    rfl
  have hsc : sc ∈ a.stateChanges := by rw [hq]; exact List.mem_cons_self
  obtain ⟨⟨hmarket, hlisted⟩, hmatched⟩ := h.handled hsc env
  refine ⟨?_, hknown, ?_, ?_, hpublished, hcalled⟩ <;> rw [hnode]
  · exact hmarket
  · exact hlisted
  · exact hmatched

end Apart

end App

end RaidexNode
end Raidex
