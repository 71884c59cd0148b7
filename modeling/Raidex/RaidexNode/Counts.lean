import Raidex.RaidexNode.Progress

/-!
# Raidex.RaidexNode.Counts

How often a node dispatches the events about one of its offer objects.

* `Counted`: at most once for each object, and not before the object is in one of some states.
* `counted_commits`, `counted_pays`: so it is with the commitment to an offer, once it is
  initiated, and with the payment for it, once it is engaged.
-/

namespace Raidex
namespace RaidexNode

/-- The event is the commitment to the offer at `r`. -/
def commits (r : OfferRef) : Event → Bool
  | .commitmentService (.commit r') => r' = r
  | _ => false

/-- The event starts the exchange of the offer at `r`. -/
def pays (r : OfferRef) : Event → Bool
  | .trader (.swapInit m) => m.offer = some r
  | _ => false

def OfferState.initiated (s : OfferState) : Bool := s ≠ .openCreated

structure Counted (p : OfferRef → Event → Bool) (done : OfferState → Bool) (s : Node) : Prop where
  unspent : ∀ r, (∀ o, s.offers[r]? = some o → done o.state = false) → s.events.countP (p r) = 0
  once : ∀ r, s.events.countP (p r) ≤ 1

namespace Counted

variable {p : OfferRef → Event → Bool} {done : OfferState → Bool} {s s' : Node} {r : OfferRef}
  {o o' : Offer} {es : List Event}

theorem init (market : TokenPair) : Counted p done (.init market) :=
  ⟨fun _ _ => rfl, fun _ => Nat.zero_le _⟩

theorem of_eq (hs : Counted p done s) (hoffers : s'.offers = s.offers)
    (hevents : s'.events = s.events) : Counted p done s' := by
  obtain ⟨h1, h2⟩ := hs
  rw [← hoffers, ← hevents] at h1
  rw [← hevents] at h2
  exact ⟨h1, h2⟩

theorem quiet (hs : Counted p done s) (hp : ∀ r e, e.quiet = true → p r e = false)
    (h : Quiet s s') : Counted p done s' := by
  obtain ⟨es, hes, hquiet⟩ := h.events
  have hcount (r : OfferRef) : s'.events.countP (p r) = s.events.countP (p r) := by
    have hnone : es.countP (p r) = 0 :=
      List.countP_eq_zero.mpr fun e he => by simp [hp r e (hquiet e he)]
    rw [hes, List.countP_append, hnone, Nat.add_zero]
  refine ⟨?_, ?_⟩
  · intro r hr
    rw [hcount]
    exact hs.unspent r fun o ho => hr o (h.offers ▸ ho)
  · intro r
    rw [hcount]
    exact hs.once r

theorem created (hs : Counted p done s) (b : BasicOffer Number) (role : TraderRole) :
    Counted p done (s.created b role) :=
  ⟨fun r hr => hs.unspent r fun o ho => hr o (created_old ho), hs.once⟩

/-- The offer at `r` has changed, and the new events are about it only. -/
theorem changed (hs : Counted p done s) (ho : s.offers[r]? = some o)
    (hoffers : s'.offers = s.offers.set r o') (hevents : s'.events = s.events ++ es)
    (hother : ∀ r', r' ≠ r → es.countP (p r') = 0)
    (hmono : done o.state = true → done o'.state = true)
    (hself : es.countP (p r) = 0 ∨
      es.countP (p r) ≤ 1 ∧ done o.state = false ∧ done o'.state = true) :
    Counted p done s' := by
  have hlt : r < s.offers.length := (List.getElem?_eq_some_iff.mp ho).1
  have hnew : s'.offers[r]? = some o' := hoffers ▸ List.getElem?_set_self hlt
  have hfree (h : done o.state = false) : s.events.countP (p r) = 0 :=
    hs.unspent r fun o₁ ho₁ => by cases ho.symm.trans ho₁; exact h
  constructor
  · intro r' hr'
    rw [hevents, List.countP_append]
    by_cases hrr : r' = r
    · subst hrr
      have hdone : done o'.state = false := hr' o' hnew
      have hold : done o.state = false := by
        cases h : done o.state with
        | false => rfl
        | true => rw [hmono h] at hdone; cases hdone
      rcases hself with hself | ⟨-, -, hself⟩
      · rw [hself, hfree hold]
      · rw [hdone] at hself; cases hself
    · rw [hother r' hrr, Nat.add_zero]
      refine hs.unspent r' fun o₁ ho₁ => hr' o₁ ?_
      rw [hoffers]
      exact (List.getElem?_set_ne (Ne.symm hrr)).trans ho₁
  · intro r'
    rw [hevents, List.countP_append]
    by_cases hrr : r' = r
    · subst hrr
      rcases hself with hself | ⟨hle, hold, -⟩
      · rw [hself]; exact hs.once r'
      · rw [hfree hold, Nat.zero_add]; exact hle
    · rw [hother r' hrr]; exact hs.once r'

end Counted

section

variable {s s' : Node} {r : OfferRef} {o : Offer} {t : OfferTrigger} {d : OfferState}
  {k : OfferKwargs} {fresh : Prop} {sc : StateChange}

theorem exchanging_history (s : Node) (m : Match) (r : OfferRef) (o : Offer) :
    (s.exchanging m r o).events = s.events ++
      [.trader (.swapInit m), .raidenListener (.expectInbound m.target o.offerId)] := by
  simp only [Node.exchanging, Node.entered, entryEvents, List.append_nil]

/-! ## Commitments -/

theorem countP_commits_entryEvents (r' : OfferRef) (hd : d ≠ .openUnproved ∨ r' ≠ r) :
    (entryEvents r d k).countP (commits r') = 0 := by
  refine List.countP_eq_zero.mpr ?_
  intro e he
  cases d <;> simp only [entryEvents, List.not_mem_nil, List.mem_singleton, List.mem_map] at he
  case openUnproved =>
    subst he
    simpa [commits] using (hd.resolve_left (· rfl)).symm
  case pendingWaitForRefund =>
    obtain ⟨e', -, rfl⟩ := he
    simp [commits]
  all_goals (subst he; simp [commits])

theorem initiated_dest (hd : t.dest o.state = some d) : d.initiated = true := by
  cases t <;> cases hs : o.state <;> rw [hs] at hd <;> cases hd <;> rfl

theorem Counted.enteredElse (hs : Counted commits OfferState.initiated s)
    (ho : s.offers[r]? = some o) (hd : t.dest o.state = some d) (hne : d ≠ .openUnproved) :
    Counted commits OfferState.initiated (s.entered r o d k) :=
  hs.changed ho rfl rfl (fun r' _ => countP_commits_entryEvents r' (.inl hne))
    (fun _ => initiated_dest hd) (.inl (countP_commits_entryEvents r (.inl hne)))

theorem Counted.exchangingElse (hs : Counted commits OfferState.initiated s) (m : Match)
    (ho : s.offers[r]? = some o) :
    Counted commits OfferState.initiated (s.exchanging m r o) :=
  hs.changed ho rfl (exchanging_history s m r o) (fun _ _ => rfl) (fun _ => rfl) (.inl rfl)

theorem counted_commits_effect (hs : Counted commits OfferState.initiated s)
    (h : Effect fresh sc s s') : Counted commits OfferState.initiated s' := by
  cases h with
  | quiet h =>
    refine hs.quiet (fun r e he => ?_) h
    cases e with
    | commitmentService e => cases he
    | trader e | raidenListener e | transport e => rfl
  | created data b role _ => exact hs.created b role
  | taken data e _ => exact (hs.created e.takeOffer .taker).of_eq rfl rfl
  | @entered _ _ r o t k d ho hmodel hd hfires =>
    by_cases ht : t = .initiating
    · subst ht
      have hstate : o.state = .openCreated ∧ d = .openUnproved := by
        cases hst : o.state <;> rw [hst] at hd <;> cases hd
        exact ⟨rfl, rfl⟩
      obtain ⟨hstate, rfl⟩ := hstate
      refine hs.changed ho rfl rfl (fun r' hr' => countP_commits_entryEvents r' (.inr hr'))
        (fun _ => rfl) (.inr ⟨?_, by rw [hstate]; rfl, rfl⟩)
      exact List.countP_le_length
    · refine hs.enteredElse ho hd ?_
      rintro rfl
      -- a failed payment re-enters the state, but no handler fires it
      cases hfires with
      | initiating => exact ht rfl
      | timeout | canceled | cancellationProved | published | proved | inbound =>
        cases hst : o.state <;> rw [hst] at hd <;> cases hd
  | provedMatched p hr ho hmodel hstate hm hr' ho' hmodel' hd =>
    have hproved : OfferTrigger.receiveCommitmentProof.dest _ = some .openProved :=
      congrArg _ hstate
    exact (hs.enteredElse ho hproved nofun).exchangingElse _ ho'
  | called offerId initiator p hr ho hmodel hd =>
    have hset (m : Match) : Counted commits OfferState.initiated
        { s with matchesById := s.matchesById.insert offerId m } := hs.of_eq rfl rfl
    exact (hset _).exchangingElse _ ho
  | completed e hm hr ho hmodel hstate hr' =>
    have hinbound : OfferTrigger.receivedInbound.dest _ = some .completed := congrArg _ hstate
    exact (hs.enteredElse ho hinbound nofun).of_eq rfl rfl

theorem counted_commits_broken (hs : Counted commits OfferState.initiated s)
    (h : Broken sc s s') : Counted commits OfferState.initiated s' := by
  cases h with
  | unmatched p hr ho hmodel hstate hm =>
    have hproved : OfferTrigger.receiveCommitmentProof.dest _ = some .openProved :=
      congrArg _ hstate
    exact hs.enteredElse ho hproved nofun
  | called offerId initiator p => exact hs.of_eq rfl rfl
  | unremoved e hm hr ho hmodel hstate =>
    have hinbound : OfferTrigger.receivedInbound.dest _ = some .completed := congrArg _ hstate
    exact (hs.enteredElse ho hinbound nofun).of_eq rfl rfl

/-! ## Payments -/

theorem countP_pays_entryEvents (r' : OfferRef) : (entryEvents r d k).countP (pays r') = 0 := by
  refine List.countP_eq_zero.mpr ?_
  intro e he
  cases d <;> simp only [entryEvents, List.not_mem_nil, List.mem_singleton, List.mem_map] at he
  case pendingWaitForRefund =>
    obtain ⟨e', -, rfl⟩ := he
    simp [pays]
  all_goals (subst he; simp [pays])

theorem Counted.enteredUnpaid (hs : Counted pays OfferState.engaged s)
    (ho : s.offers[r]? = some o) (hd : t.dest o.state = some d) :
    Counted pays OfferState.engaged (s.entered r o d k) :=
  hs.changed ho rfl rfl (fun r' _ => countP_pays_entryEvents r')
    (fun he => ((Offer.Later.enter (k := k) hd).engaged he).1) (.inl (countP_pays_entryEvents r))

theorem Counted.exchangingPaid (hs : Counted pays OfferState.engaged s) {m : Match}
    (hm : m.offer = some r) (ho : s.offers[r]? = some o)
    (hd : OfferTrigger.foundMatch.dest o.state = some .pendingExchanging) :
    Counted pays OfferState.engaged (s.exchanging m r o) := by
  have hstate : o.state.engaged = false := by
    cases hst : o.state <;> rw [hst] at hd <;> cases hd <;> rfl
  refine hs.changed ho rfl (exchanging_history s m r o) (fun r' hr' => ?_) (fun _ => rfl)
    (.inr ⟨?_, hstate, rfl⟩)
  · simpa [pays, hm] using hr'.symm
  · simp [pays, hm]

theorem counted_pays_effect (hs : Counted pays OfferState.engaged s)
    (h : Effect fresh sc s s') : Counted pays OfferState.engaged s' := by
  cases h with
  | quiet h =>
    refine hs.quiet (fun r e he => ?_) h
    cases e with
    | trader e => cases e <;> first | rfl | cases he
    | commitmentService e | raidenListener e | transport e => rfl
  | created data b role _ => exact hs.created b role
  | taken data e _ => exact (hs.created e.takeOffer .taker).of_eq rfl rfl
  | entered ho hmodel hd hfires => exact hs.enteredUnpaid ho hd
  | provedMatched p hr ho hmodel hstate hm hr' ho' hmodel' hd =>
    have hproved : OfferTrigger.receiveCommitmentProof.dest _ = some .openProved :=
      congrArg _ hstate
    exact (hs.enteredUnpaid ho hproved).exchangingPaid hr' ho' hd
  | called offerId initiator p hr ho hmodel hd =>
    have hset (m : Match) : Counted pays OfferState.engaged
        { s with matchesById := s.matchesById.insert offerId m } := hs.of_eq rfl rfl
    exact (hset _).exchangingPaid rfl ho hd
  | completed e hm hr ho hmodel hstate hr' =>
    have hinbound : OfferTrigger.receivedInbound.dest _ = some .completed := congrArg _ hstate
    exact (hs.enteredUnpaid ho hinbound).of_eq rfl rfl

theorem counted_pays_broken (hs : Counted pays OfferState.engaged s)
    (h : Broken sc s s') : Counted pays OfferState.engaged s' := by
  cases h with
  | unmatched p hr ho hmodel hstate hm =>
    have hproved : OfferTrigger.receiveCommitmentProof.dest _ = some .openProved :=
      congrArg _ hstate
    exact hs.enteredUnpaid ho hproved
  | called offerId initiator p => exact hs.of_eq rfl rfl
  | unremoved e hm hr ho hmodel hstate =>
    have hinbound : OfferTrigger.receivedInbound.dest _ = some .completed := congrArg _ hstate
    exact (hs.enteredUnpaid ho hinbound).of_eq rfl rfl

end

end RaidexNode
end Raidex
