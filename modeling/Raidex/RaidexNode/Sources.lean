import Raidex.RaidexNode.BookIndex
import Raidex.RaidexNode.Payments
import Raidex.RaidexNode.Settles
import Raidex.RaidexNode.Steps

/-!
# Raidex.RaidexNode.Sources

Where the proofs of a node come from, and the terms it trades on. The proofs that an address has
got for an offer id, `R`, and the terms that are offered at an address, `T`, are for the environment
to say.

* `Shelves`: the book loses entries at most, as in all handlers but that of a publication.
* `Traced`: the node has got the proof of each of its offers, and the target of a match the proof
  of the match.
* `App.Sourced.step`: a node goes on so as long as what it receives is like this.
-/

namespace Raidex
namespace RaidexNode

open EStateM (Moves)

/-! ## Market and book -/

structure Shelves (s s' : Node) : Prop where
  market : s'.market = s.market
  offerBook : ∀ e ∈ s'.offerBook.values, e ∈ s.offerBook.values

theorem Settles.shelves {s s' : Node} (h : Settles s s') : Shelves s s' :=
  ⟨h.market, fun _ he => h.offerBook ▸ he⟩

namespace Shelves

theorem of_eq {s s' : Node} (market : s'.market = s.market)
    (offerBook : s'.offerBook = s.offerBook) : Shelves s s' :=
  ⟨market, fun _ he => offerBook ▸ he⟩

theorem refl (s : Node) : Shelves s s := of_eq rfl rfl

theorem trans (s s₁ s₂ : Node) (h : Shelves s s₁) (h' : Shelves s₁ s₂) : Shelves s s₂ :=
  ⟨h'.market.trans h.market, fun e he => h.offerBook e (h'.offerBook e he)⟩

variable {α β : Type}

theorem seq {x : NodeM α} {f : α → NodeM β} (hx : Moves Shelves x)
    (hf : ∀ a, Moves Shelves (f a)) : Moves Shelves (x >>= f) := EStateM.moves_bind trans hx hf

theorem raise (e : PyError) : Moves Shelves (throw e : NodeM α) := refl

theorem value (a : α) : Moves Shelves (pure a : NodeM α) := refl

theorem read : Moves Shelves (get : NodeM Node) := refl

theorem ofExcept (x : Except PyError α) : Moves Shelves (MonadExcept.ofExcept x : NodeM α) := by
  cases x with
  | ok a => exact refl
  | error e => exact refl

theorem settling {x : NodeM α} (h : Moves Settles x) : Moves Shelves x :=
  fun s => (h s).shelves

theorem callOffer (r : OfferRef) {t : OfferTrigger} {k : OfferKwargs}
    (hkwargs : t = .receivedInbound → k.raidenEvent.isSome) : Moves Shelves (callOffer r t k) :=
  settling (Settles.callOffer r hkwargs)

theorem createNewTimeout (env : Env) (offerId date threshold : Nat) :
    Moves Shelves (createNewTimeout env offerId date threshold) := by
  refine seq read ?_
  intro s
  split
  · exact raise _
  · refine seq (EStateM.moves_modify fun _ => of_eq rfl rfl) fun _ => ?_
    refine seq (ofExcept _) fun _ => ?_
    exact seq (EStateM.moves_modify fun _ => of_eq rfl rfl) fun _ => value _

theorem addOffer (orderId offerId : Nat) (r : OfferRef) :
    Moves Shelves (addOffer orderId offerId r) := by
  refine seq (EStateM.moves_modify fun s => of_eq ?_ (updateOrder_offerBook ..)) fun _ =>
    callOffer r fun h => by cases h
  unfold Node.updateOrder
  split <;> rfl

theorem removeFromBook (offerId : Nat) : Moves Shelves (removeFromBook offerId) := by
  intro s
  cases h : s.offerBook.removeOffer offerId with
  | ok book =>
    rw [removeFromBook_removed h]
    exact ⟨rfl, fun _ he => OfferBook.of_mem_values_removeOffer h he⟩
  | error err =>
    unfold RaidexNode.removeFromBook
    rw [EStateM.run_bind, EStateM.run_get]
    simp only [h]
    exact refl s

theorem takeOffer (env : Env) (orderId : Nat) (e : OfferBookEntry) :
    Moves Shelves (takeOffer env orderId e) := by
  have hcreate : Moves Shelves (createTakeOffer e) := fun s => by
    rw [createTakeOffer_run]
    exact of_eq rfl rfl
  refine seq hcreate fun r => seq (createNewTimeout env _ _ _) fun started => ?_
  cases started with
  | false => exact raise _
  | true =>
    refine seq (EStateM.moves_modify fun _ => of_eq rfl rfl) fun _ => ?_
    exact seq (addOffer _ _ _) fun _ => removeFromBook _

theorem takeOffers (env : Env) (orderId : Nat) (es : List OfferBookEntry) :
    Moves Shelves (takeOffers env orderId es) := by
  induction es with
  | nil => exact value ()
  | cons e es ih => exact seq (takeOffer env orderId e) fun _ => ih

theorem offerRest (env : Env) (order : LimitOrder) (amountLeft : Number) :
    Moves Shelves (offerRest env order amountLeft) := by
  refine seq (ofExcept _) fun o => ?_
  have hcreate : Moves Shelves (createMakeOffer o) := fun s => by
    rw [createMakeOffer_run]
    exact of_eq rfl rfl
  exact seq hcreate fun _ => seq (createNewTimeout env _ _ _) fun _ => addOffer _ _ _

theorem processOrder (env : Env) (order : LimitOrder) : Moves Shelves (processOrder env order) := by
  refine seq (EStateM.moves_modify fun _ => of_eq rfl rfl) fun _ => seq read fun s => ?_
  refine seq (ofExcept _) fun x => seq (takeOffers env _ _) fun _ => ?_
  split
  · exact offerRest env order _
  · exact value ()

theorem cleanUpTimeout (offerId : Nat) :
    Moves Shelves (modify fun s => s.cleanUpTimeout offerId : NodeM Unit) :=
  EStateM.moves_modify fun _ => of_eq rfl rfl

theorem handleOfferTimeout (offerId : Nat) : Moves Shelves (handleOfferTimeout offerId) := by
  refine seq read fun s => ?_
  split
  · exact seq (settling (Settles.callOffer? _ fun h => by cases h)) fun _ => cleanUpTimeout _
  · split
    · exact seq (removeFromBook _) fun _ => cleanUpTimeout _
    · exact cleanUpTimeout _

theorem handleTransferReceived (e : PaymentReceivedEvent) :
    Moves Shelves (handleTransferReceived e) := by
  refine seq read fun s => ?_
  cases s.matchesById.lookup e.identifier with
  | none => exact raise _
  | some m =>
    have hinbound : Moves Shelves (receivedInbound m e) := by
      unfold receivedInbound
      cases m.offer with
      | none => exact raise _
      | some r => exact callOffer r fun _ => rfl
    refine seq hinbound fun _ => ?_
    cases m.offer with
    | none => exact raise _
    | some r =>
      refine seq (settling (Settles.readOffer r)) fun o => ?_
      split
      · exact seq (cleanUpTimeout _) fun _ => settling (removeModel_settles r o)
      · exact value ()

/-- Only a publication adds to the book. -/
theorem handleStateChange (env : Env) {sc : StateChange} (h : ∀ e, sc ≠ .offerPublished e) :
    Moves Shelves (handleStateChange env sc) := by
  cases sc with
  | offerPublished e => exact absurd rfl (h e)
  | newLimitOrder data => exact processOrder env _
  | cancelLimitOrder orderId => exact settling (Settles.cancelOrder orderId)
  | offerTimeout offerId date => exact handleOfferTimeout offerId
  | commitmentProof p =>
    exact seq read fun s => settling (Settles.handleCommitmentProof _ p)
  | cancellationProof p =>
    exact seq read fun s => settling (Settles.callOffer? _ fun h => by cases h)
  | takerCall offerId initiator p => exact settling (Settles.handleTakerCall offerId initiator p)
  | transferReceived e => exact handleTransferReceived e
  | channelStatus raw =>
    exact seq (EStateM.moves_modify fun _ => of_eq rfl rfl) fun _ =>
      settling (Settles.dispatchEvents _)
  | makeChannel partner token deposit => exact settling (Settles.dispatchEvents _)

end Shelves

theorem handleOfferPublished_shelves (env : Env) (e : OfferBookEntry) (s : Node) :
    ((handleOfferPublished env e).run s).state.market = s.market ∧
      ∀ e' ∈ ((handleOfferPublished env e).run s).state.offerBook.values,
        e' = e ∨ e' ∈ s.offerBook.values := by
  have hshelves {s' : Node} (h : Shelves s s') : s'.market = s.market ∧
      ∀ e' ∈ s'.offerBook.values, e' = e ∨ e' ∈ s.offerBook.values :=
    ⟨h.market, fun e' he' => .inr (h.offerBook e' he')⟩
  unfold handleOfferPublished
  rw [EStateM.run_bind, EStateM.run_get]
  simp only
  split
  · exact hshelves (Shelves.settling (Settles.callOffer? _ fun h => by cases h) s)
  · cases hins : s.offerBook.insertOffer e with
    | error err => exact hshelves (Shelves.refl s)
    | ok book =>
      have hrest : Moves Shelves (do
          let _ ← createNewTimeout env e.offerId e.offer.timeoutDate offerThresholdTime
          pure () : NodeM Unit) :=
        Shelves.seq (Shelves.createNewTimeout env _ _ _) fun _ => Shelves.value ()
      have hstate := hrest { s with offerBook := book }
      refine ⟨hstate.market, ?_⟩
      intro e' he'
      exact OfferBook.of_mem_values_insertOffer hins (hstate.offerBook e' he')

/-! ## Proofs and matches -/

section

variable (R : Address → Nat → CommitmentProof → Prop) (T : Address → BasicOffer Number → Prop)

/-- The entry shows an offer of its initiator, and the proof it has for it. -/
def OfferBookEntry.Traced (e : OfferBookEntry) : Prop :=
  R e.initiator e.offerId e.commitmentProof ∧ T e.initiator e.takeOffer

/-- The match has the proof of its target for the offer id, and the target offers under this id; a
taker trades on these terms. -/
structure Match.Traced (offers : List Offer) (id : Nat) (m : Match) : Prop where
  proved : R m.target id m.commitmentProof
  offered : ∃ b, T m.target b ∧ b.offerId = id ∧ ∀ r, m.offer = some r →
    ∃ o, offers[r]? = some o ∧ o.offerId = id ∧ (m.traderRole = .taker → o.toBasicOffer = b)

/-- The offer of the match has one. -/
def Match.Engaged (offers : List Offer) (m : Match) : Prop :=
  ∃ r o, m.offer = some r ∧ offers[r]? = some o ∧ o.state.engaged = true

/-- The node at the address `own` knows where its proofs and matches come from. -/
structure Traced (own : Address) (s : Node) : Prop where
  managed : Managed s
  kept : ∀ (r : OfferRef) o, s.offers[r]? = some o → o.Kept fun p => R own p.offerId p
  matched : ∀ id m, s.matchesById.lookup id = some m → m.Traced R T s.offers id
  paid : ∀ m, Event.trader (.swapInit m) ∈ s.events →
    m.Engaged s.offers ∧ ∃ id, m.Traced R T s.offers id

/-- The proofs and terms of a state change are those of its sender. -/
def StateChange.Traced (own : Address) : StateChange → Prop
  | .commitmentProof p => R own p.offerId p
  | .takerCall offerId initiator p =>
    R initiator offerId p ∧ ∃ b, T initiator b ∧ b.offerId = offerId
  | .offerPublished e => e.Traced R T
  | _ => True

end

variable {R R' : Address → Nat → CommitmentProof → Prop}
  {T T' : Address → BasicOffer Number → Prop} {own : Address}

theorem Match.Traced.advances {s s' : Node} {id : Nat} {m : Match} (h : m.Traced R T s.offers id)
    (hadv : s.Advances s') : m.Traced R T s'.offers id := by
  obtain ⟨hproved, b, hb, hid, hoffer⟩ := h
  refine ⟨hproved, b, hb, hid, ?_⟩
  intro r hr
  obtain ⟨o, ho, hoid, hterms⟩ := hoffer r hr
  obtain ⟨o', ho', hlater⟩ := hadv r o ho
  exact ⟨o', ho', hlater.offerId.trans hoid, fun hrole => hlater.basic.trans (hterms hrole)⟩

theorem Match.Engaged.advances {s s' : Node} {m : Match} (h : m.Engaged s.offers)
    (hadv : s.Advances s') : m.Engaged s'.offers := by
  obtain ⟨r, o, hr, ho, he⟩ := h
  obtain ⟨o', ho', hlater⟩ := hadv r o ho
  exact ⟨r, o', hr, ho', (hlater.engaged he).1⟩

theorem Match.Traced.mono {offers : List Offer} {id : Nat} {m : Match} (h : m.Traced R T offers id)
    (hR : ∀ a id p, R a id p → R' a id p) (hT : ∀ a b, T a b → T' a b) :
    m.Traced R' T' offers id := by
  obtain ⟨hproved, b, hb, hrest⟩ := h
  exact ⟨hR _ id _ hproved, b, hT _ b hb, hrest⟩

theorem StateChange.Traced.mono {sc : StateChange} (h : sc.Traced R T own)
    (hR : ∀ a id p, R a id p → R' a id p) (hT : ∀ a b, T a b → T' a b) : sc.Traced R' T' own := by
  cases sc with
  | commitmentProof p => exact hR _ _ p h
  | takerCall offerId initiator p =>
    obtain ⟨hp, b, hb, hid⟩ := h
    exact ⟨hR _ _ p hp, b, hT _ b hb, hid⟩
  | offerPublished e => exact ⟨hR _ _ _ h.1, hT _ _ h.2⟩
  | _ => trivial

namespace Traced

variable {s s' : Node} {r : OfferRef} {o : Offer} {t : OfferTrigger} {d : OfferState}
  {k : OfferKwargs} {e : OfferBookEntry} {m : Match} {sc : StateChange} {fresh : Prop}

theorem init (market : TokenPair) : Traced R T own (.init market) :=
  ⟨.init market, by simp [Node.init], by simp [Node.init], by simp [Node.init]⟩

theorem mono (hs : Traced R T own s) (hR : ∀ a id p, R a id p → R' a id p)
    (hT : ∀ a b, T a b → T' a b) : Traced R' T' own s where
  managed := hs.managed
  kept r o ho :=
    ⟨(hs.kept r o ho).proved, fun p hp => ((hs.kept r o ho).received p hp).imp_left (hR own _ p)⟩
  matched id m hm := (hs.matched id m hm).mono hR hT
  paid m hm := by
    obtain ⟨hengaged, id, htraced⟩ := hs.paid m hm
    exact ⟨hengaged, id, htraced.mono hR hT⟩

/-- Offers advance; there are no new matches and payments. -/
theorem of_advances (hs : Traced R T own s) (h : s.Advances s')
    (hmanager : s'.offerManager = s.offerManager) (hmatches : s'.matchesById = s.matchesById)
    (hkept : ∀ (r : OfferRef) o, s'.offers[r]? = some o → o.Kept fun p => R own p.offerId p)
    (hpaid : ∀ m, Event.trader (.swapInit m) ∈ s'.events →
      Event.trader (.swapInit m) ∈ s.events) : Traced R T own s' where
  managed := hs.managed.advances h hmanager
  kept := hkept
  matched id m hm := by
    rw [hmatches] at hm
    exact (hs.matched id m hm).advances h
  paid m hm := by
    obtain ⟨hengaged, id, htraced⟩ := hs.paid m (hpaid m hm)
    exact ⟨hengaged.advances h, id, htraced.advances h⟩

theorem quiet (hs : Traced R T own s) (h : Quiet s s') : Traced R T own s' := by
  refine hs.of_advances (.of_eq h.offers) h.offerManager h.matchesById ?_ ?_
  · intro r o ho
    rw [h.offers] at ho
    exact hs.kept r o ho
  · intro m hm
    obtain ⟨es, hes, hquiet⟩ := h.events
    rw [hes, List.mem_append] at hm
    exact hm.resolve_right fun hm => by cases hquiet _ hm

theorem created (hs : Traced R T own s) (b : BasicOffer Number) (role : TraderRole) :
    Traced R T own (s.created b role) where
  managed := hs.managed.created b role
  kept r o ho := by
    rcases created_cases ho with ho | ⟨-, rfl⟩
    · exact hs.kept r o ho
    · exact .new b role _
  matched id m hm := (hs.matched id m hm).advances (.created b role)
  paid m hm := by
    obtain ⟨hengaged, id, htraced⟩ := hs.paid m hm
    exact ⟨hengaged.advances (.created b role), id, htraced.advances (.created b role)⟩

theorem setMatch (hs : Traced R T own s) {id : Nat} (hm : m.Traced R T s.offers id) :
    Traced R T own { s with matchesById := s.matchesById.insert id m } := by
  refine ⟨hs.managed, hs.kept, ?_, hs.paid⟩
  intro id' m' hm'
  by_cases hid : id' = id
  · subst hid
    obtain rfl : m = m' := Option.some.inj ((AList.lookup_insert ..).symm.trans hm')
    exact hm
  · exact hs.matched id' m' ((AList.lookup_insert_ne hid).symm.trans hm')

/-- An offer that is taken has the terms of its entry. -/
theorem taken (hs : Traced R T own s) (he : e.Traced R T) : Traced R T own (s.taken e) := by
  refine (hs.created e.takeOffer .taker).setMatch (m := takerMatch s.nextOffer e) ?_
  refine ⟨he.1, e.takeOffer, he.2, rfl, ?_⟩
  rintro r ⟨⟩
  exact ⟨_, List.getElem?_concat_length, rfl, fun _ => rfl⟩

theorem entered (hs : Traced R T own s) (ho : s.offers[r]? = some o)
    (hd : t.dest o.state = some d) (hp : t = .receiveCommitmentProof →
      ∃ p, k.proof = some p ∧ R own p.offerId p ∧ p.offerId = o.offerId) :
    Traced R T own (s.entered r o d k) := by
  refine hs.of_advances (.entered ho hd) rfl rfl ?_ ?_
  · intro r' o' ho'
    rcases entered_cases ho' with ⟨-, rfl⟩ | ⟨-, ho'⟩
    · exact (hs.kept r o ho).enter hd hp
    · exact hs.kept r' o' ho'
  · intro m hm
    exact (List.mem_append.mp hm).resolve_right not_mem_entryEvents

/-- The proof that comes in is for the offer that is kept under its id. -/
theorem entered_proved {p : CommitmentProof} (hs : Traced R T own s) (hp : R own p.offerId p)
    (hr : s.getOffer p.offerId = some r) (ho : s.offers[r]? = some o)
    (hstate : o.state = .openUnproved) :
    Traced R T own (s.entered r o .openProved { proof := some p }) := by
  have hd : OfferTrigger.receiveCommitmentProof.dest o.state = some .openProved := by
    rw [hstate]; rfl
  exact hs.entered ho hd fun _ => ⟨p, rfl, hp, (hs.managed.offerId hr ho).symm⟩

/-- What is paid for is a match that was traced. -/
theorem exchanging (hs : Traced R T own s) (ho : s.offers[r]? = some o)
    (hd : OfferTrigger.foundMatch.dest o.state = some .pendingExchanging) (hr : m.offer = some r)
    {id : Nat} (hm : m.Traced R T s.offers id) : Traced R T own (s.exchanging m r o) := by
  have hadv := Node.Advances.exchanging (m := m) ho hd
  have hs' := hs.entered (k := {}) ho hd fun h => by cases h
  refine ⟨hs'.managed, hs'.kept, hs'.matched, ?_⟩
  intro m' hm'
  rcases swapInit_exchanging hm' with hm' | rfl
  · obtain ⟨hengaged, id', htraced⟩ := hs.paid m' hm'
    exact ⟨hengaged.advances hadv, id', htraced.advances hadv⟩
  · exact ⟨⟨r, _, hr, entered_self ho, rfl⟩, id, hm.advances hadv⟩

/-- A taker's call asks for the offer that is kept under the id. -/
theorem makerMatch (hs : Traced R T own s) {id : Nat} {initiator : Address} {p : CommitmentProof}
    (h : (StateChange.takerCall id initiator p).Traced R T own) :
    (makerMatch (s.getOffer id) initiator p).Traced R T s.offers id := by
  obtain ⟨hp, b, hb, hid⟩ := h
  refine ⟨hp, b, hb, hid, ?_⟩
  intro r hr
  obtain ⟨o, ho, hoid⟩ := hs.managed id r hr
  exact ⟨o, ho, hoid, fun hrole => by cases hrole⟩

theorem effect (hs : Traced R T own s) (hsc : sc.Traced R T own)
    (horder : ∀ data, sc ≠ .newLimitOrder data) (h : Effect fresh sc s s') :
    Traced R T own s' := by
  cases h with
  | quiet h => exact hs.quiet h
  | created data | taken data => exact absurd rfl (horder data)
  | entered ho hmodel hd hfires =>
    refine hs.entered ho hd ?_
    intro ht
    cases hfires <;> cases ht
    next p hr hm => exact ⟨p, rfl, hsc, (hs.managed.offerId hr ho).symm⟩
  | provedMatched p hr ho hmodel hstate hm hr' ho' hmodel' hd =>
    have hs' := hs.entered_proved hsc hr ho hstate
    exact hs'.exchanging ho' hd hr' (hs'.matched _ _ hm)
  | called offerId initiator p hr ho hmodel hd =>
    have hm := hs.makerMatch hsc
    rw [hr] at hm
    exact (hs.setMatch hm).exchanging ho hd rfl ⟨hm.proved, hm.offered⟩
  | completed e hm hr ho hmodel hstate hr' =>
    have hinbound : OfferTrigger.receivedInbound.dest _ = some .completed := congrArg _ hstate
    have hs' := hs.entered (k := { raidenEvent := some e }) ho hinbound fun h => by cases h
    exact ⟨hs'.managed, hs'.kept, hs'.matched, hs'.paid⟩

theorem broken (hs : Traced R T own s) (hsc : sc.Traced R T own) (h : Broken sc s s') :
    Traced R T own s' := by
  cases h with
  | unmatched p hr ho hmodel hstate hm => exact hs.entered_proved hsc hr ho hstate
  | called offerId initiator p => exact hs.setMatch (hs.makerMatch hsc)
  | unremoved e hm hr ho hmodel hstate =>
    have hinbound : OfferTrigger.receivedInbound.dest _ = some .completed := congrArg _ hstate
    exact (hs.entered ho hinbound fun h => by cases h).quiet (cleanUpTimeout_quiet _ _)

/-! ## Limit orders -/

theorem takeOffer (hs : Traced R T own s) (he : e.Traced R T) (env : Env) (orderId : Nat) :
    Traced R T own ((takeOffer env orderId e).run s).state := by
  by_cases htime : s.Startable e.offerId ∧ e.offer.timeoutDate ≤ maxTimestamp
  swap
  · obtain ⟨err, s', hrun, hq⟩ := takeOffer_refused env orderId htime
    rw [hrun]
    exact (hs.created e.takeOffer .taker).quiet hq
  obtain ⟨hstart, hdate⟩ := htime
  have hregistered : Traced R T own (s.registered env orderId e) :=
    (hs.taken he).quiet registered_quiet
  cases hdistinct : s.hasEqualModel e.takeOffer with
  | true =>
    obtain ⟨err, hrun⟩ := takeOffer_unmodelled env orderId hstart hdate hdistinct
    rw [hrun]
    exact hregistered
  | false =>
    have hinitiated : Traced R T own (s.initiated env orderId e) := by
      refine hregistered.entered (t := .initiating) ?_ rfl fun h => by cases h
      rw [registered_getElem?, hdistinct]
      rfl
    rw [takeOffer_initiated hstart hdate hdistinct]
    cases hbook : (s.initiated env orderId e).offerBook.contains e.offerId with
    | true =>
      obtain ⟨book, hrun, -⟩ := removeFromBook_ok hbook
      rw [hrun]
      exact hinitiated.quiet (book_quiet _ book)
    | false =>
      rw [removeFromBook_error hbook]
      exact hinitiated

theorem takeOffers {es : List OfferBookEntry} (hs : Traced R T own s)
    (hes : ∀ e ∈ es, e.Traced R T) (env : Env) (orderId : Nat) :
    Traced R T own ((takeOffers env orderId es).run s).state := by
  induction es generalizing s with
  | nil => exact hs
  | cons e es ih =>
    rw [List.forall_mem_cons] at hes
    refine EStateM.state_bind (hs.takeOffer hes.1 env orderId) ?_
    intro _ s₁ _ hs₁
    exact ih hs₁ hes.2

theorem offerRest (hs : Traced R T own s) (env : Env) (order : LimitOrder) (amountLeft : Number) :
    Traced R T own ((offerRest env order amountLeft).run s).state := by
  cases h : order.makeOffer env amountLeft with
  | error err => rw [offerRest_unpriced h]; exact hs
  | ok o =>
    have hcreated := hs.created o .maker
    by_cases hstart : s.Startable o.offerId
    swap
    · obtain ⟨err, s', hrun, hq⟩ := offerRest_refused h hstart
      rw [hrun]
      exact hcreated.quiet hq
    have hoffered := hcreated.quiet (offered_quiet env order.orderId)
    cases heq : s.hasEqualModel o with
    | true =>
      obtain ⟨err, hrun⟩ := offerRest_unmodelled h hstart heq
      rw [hrun]
      exact hoffered
    | false =>
      rw [offerRest_ok h ⟨hstart, heq⟩]
      refine hoffered.entered (t := .initiating) ?_ rfl fun h => by cases h
      rw [offered_getElem?, heq]
      rfl

theorem processOrder (hs : Traced R T own s) (hbook : ∀ e ∈ s.offerBook.values, e.Traced R T)
    (env : Env) (order : LimitOrder) :
    Traced R T own ((processOrder env order).run s).state := by
  obtain ⟨taken, rest, h⟩ := matchLimit_ok s.offerBook order.price order.orderType order.amount
  rw [processOrder_run h]
  refine EStateM.state_bind ((hs.quiet (orders_quiet s _)).takeOffers
    (fun e he => hbook e (OfferBook.of_matchLimit h he)) env _) ?_
  intro _ s₁ _ hs₁
  split
  · exact hs₁.offerRest env order rest
  · exact hs₁

theorem handled (hs : Traced R T own s) (hbook : ∀ e ∈ s.offerBook.values, e.Traced R T)
    (hsc : sc.Traced R T own) (env : Env) :
    Traced R T own ((handleStateChange env sc).run s).state := by
  by_cases horder : ∃ data, sc = .newLimitOrder data
  · obtain ⟨data, rfl⟩ := horder
    exact hs.processOrder hbook env _
  · have hno (data : OrderData) : sc ≠ .newLimitOrder data := fun h => horder ⟨data, h⟩
    exact (handled_proceeds env sc s).invariant hs (fun _ _ h hs => hs.effect hsc hno h)
      (fun _ _ h hs => hs.broken hsc h) fun _ h => h

end Traced

/-! ## Steps -/

namespace App

/-- A node only adds offers, and goes on with those it has. -/
theorem step_advances (C : Crypto) (a : App) (i : Input) : a.node.Advances (a.step C i).node := by
  rcases a.step_cases C i with ⟨hquiet, -⟩ | ⟨env, sc, rest, -, -, -, hnode, -⟩
  · exact .of_eq hquiet.offers
  · rw [hnode]
    exact (handled_proceeds env sc a.node).invariant (P := fun s => a.node.Advances s)
      (.of_eq rfl) (fun _ _ heff h => h.trans heff.advances)
      (fun _ _ hbroken h => h.trans hbroken.advances) fun _ h => h

section

variable (R : Address → Nat → CommitmentProof → Prop) (T : Address → BasicOffer Number → Prop)

/-- The proofs and terms of a message to a node of the market are those of its sender. -/
def Input.Traced (C : Crypto) (market : TokenPair) (own : Address) : Input → Prop
  | .commitmentProof p => R own p.offerId p
  | .provenOffer m => ∀ initiator, sender C m = .ok initiator →
      R initiator m.offer.offerId m.commitmentProof ∧
        ∃ b, T initiator b ∧ b.offerId = m.offer.offerId
  | .broadcast m => ∀ e, ProvenOffer.toEntry C market m = some e → e.Traced R T
  | _ => True

structure Sourced (market : TokenPair) (own : Address) (a : App) : Prop where
  market : a.node.market = market
  listed : ∀ e ∈ a.node.offerBook.values, e.Traced R T
  traced : RaidexNode.Traced R T own a.node
  queued : ∀ sc ∈ a.stateChanges, sc.Traced R T own

end

namespace Sourced

variable {C : Crypto} {R R' : Address → Nat → CommitmentProof → Prop}
  {T T' : Address → BasicOffer Number → Prop} {market : TokenPair} {own : Address} {a : App}
  {i : Input}

theorem init (market : TokenPair) (commitmentServiceAddress : Address) :
    Sourced R T market own (.init market commitmentServiceAddress) :=
  ⟨rfl, fun e he => (by simp [App.init, Node.init, OfferBook.values, OfferBook.empty,
    OfferView.values, OfferView.empty] at he), .init market, fun sc hsc => by cases hsc⟩

theorem mono (h : Sourced R T market own a) (hR : ∀ a id p, R a id p → R' a id p)
    (hT : ∀ a b, T a b → T' a b) : Sourced R' T' market own a where
  market := h.market
  listed e he := ⟨hR _ _ _ (h.listed e he).1, hT _ _ (h.listed e he).2⟩
  traced := h.traced.mono hR hT
  queued sc hsc := (h.queued sc hsc).mono hR hT

theorem enqueued (h : Sourced R T market own a) (hi : i.Traced R T C market own) {sc : StateChange}
    (hsc : Enqueued C a i sc) : sc.Traced R T own := by
  cases sc with
  | commitmentProof p =>
    cases hsc
    exact hi
  | takerCall offerId initiator p =>
    obtain ⟨m, rfl, -, rfl, hsender, rfl⟩ := hsc
    exact hi initiator hsender
  | offerPublished e =>
    obtain ⟨m, rfl, he⟩ := hsc
    rw [h.market] at he
    exact hi e he
  | _ => trivial

theorem step (h : Sourced R T market own a) (hi : i.Traced R T C market own) :
    Sourced R T market own (a.step C i) := by
  have hqueued (sc : StateChange) (hsc : sc ∈ (a.step C i).stateChanges) : sc.Traced R T own := by
    rcases stateChanges_step hsc with hsc | hsc
    · exact h.queued sc hsc
    · exact h.enqueued hi hsc
  by_cases hhandle : ∃ env, i = .handle env
  swap
  · obtain ⟨⟨timers, hnode⟩, -⟩ := step_node (C := C) (a := a) fun env h => hhandle ⟨env, h⟩
    refine ⟨?_, ?_, ?_, hqueued⟩ <;> rw [hnode]
    · exact h.market
    · exact h.listed
    · exact h.traced.quiet (.of_eq rfl rfl rfl rfl rfl)
  obtain ⟨env, rfl⟩ := hhandle
  rcases handle_cases a env with ⟨heq, -⟩ | ⟨sc, rest, hrun, hq⟩
  · rw [App.step, heq]
    exact h
  have hsc : sc.Traced R T own := h.queued sc (by rw [hq]; exact List.mem_cons_self ..)
  have hnode : (a.step C (.handle env)).node = ((handleStateChange env sc).run a.node).state := by
    rw [App.step, handle_cons hrun hq]
    rfl
  have hbook : ((handleStateChange env sc).run a.node).state.market = a.node.market ∧
      ∀ e ∈ ((handleStateChange env sc).run a.node).state.offerBook.values, e.Traced R T := by
    by_cases hpublished : ∃ e, sc = .offerPublished e
    · obtain ⟨e, rfl⟩ := hpublished
      obtain ⟨hmarket, hvalues⟩ := handleOfferPublished_shelves env e a.node
      refine ⟨hmarket, ?_⟩
      intro e' he'
      rcases hvalues e' he' with rfl | he'
      · exact hsc
      · exact h.listed e' he'
    · have hshelves := Shelves.handleStateChange env (fun e he => hpublished ⟨e, he⟩) a.node
      exact ⟨hshelves.market, fun e he => h.listed e (hshelves.offerBook e he)⟩
  refine ⟨?_, ?_, ?_, hqueued⟩ <;> rw [hnode]
  · exact hbook.1.trans h.market
  · exact hbook.2
  · exact h.traced.handled h.listed hsc env

end Sourced

end App

end RaidexNode
end Raidex
