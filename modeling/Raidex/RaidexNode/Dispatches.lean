import Raidex.RaidexNode.Steps

/-!
# Raidex.RaidexNode.Dispatches

What the handlers of a node dispatch.

* `Unaware`: what all handlers do but that of a status of the channels.
* `handleStateChange_dispatches`: the node sends `ProvenOffer`s and starts exchanges itself; all
  other messages and transfers come from the client of the commitment service.
-/

namespace Raidex
namespace RaidexNode

open EStateM (Moves)

/-- The events that the node dispatches itself, except for the next status of the channels. -/
def Event.ofNode : Event → Bool
  | .commitmentService _ | .trader (.swapInit _) | .trader (.makeChannel ..)
  | .raidenListener (.expectInbound ..) | .transport (.sendProvenOffer ..) => true
  | _ => false

/-- The channels are as before, and nothing is dispatched about them. -/
structure Unaware (s s' : Node) : Prop where
  channels : s'.channels = s.channels
  events : ∃ es, s'.events = s.events ++ es ∧ ∀ e ∈ es, e.ofNode = true

namespace Unaware

variable {s s' : Node} {α β : Type}

theorem of_eq (channels : s'.channels = s.channels) (events : s'.events = s.events) :
    Unaware s s' :=
  ⟨channels, [], by rw [events, List.append_nil], by simp⟩

theorem refl (s : Node) : Unaware s s := of_eq rfl rfl

theorem trans (s s₁ s₂ : Node) (h : Unaware s s₁) (h' : Unaware s₁ s₂) : Unaware s s₂ := by
  obtain ⟨es, hes, haside⟩ := h.events
  obtain ⟨es', hes', haside'⟩ := h'.events
  refine ⟨h'.channels.trans h.channels, es ++ es', ?_, ?_⟩
  · rw [hes', hes, List.append_assoc]
  · exact List.forall_mem_append.mpr ⟨haside, haside'⟩

theorem entered {r : OfferRef} {o : Offer} {d : OfferState} {k : OfferKwargs} :
    Unaware s (s.entered r o d k) := by
  refine ⟨rfl, entryEvents r d k, rfl, ?_⟩
  intro e he
  unfold entryEvents at he
  cases d <;> simp only [List.mem_singleton, List.not_mem_nil, List.mem_map] at he
  case pendingWaitForRefund =>
    obtain ⟨p, -, rfl⟩ := he
    rfl
  all_goals first | exact he.elim | rw [he]; rfl

theorem seq {x : NodeM α} {f : α → NodeM β} (hx : Moves Unaware x)
    (hf : ∀ a, Moves Unaware (f a)) : Moves Unaware (x >>= f) := EStateM.moves_bind trans hx hf

theorem raise (e : PyError) : Moves Unaware (throw e : NodeM α) := refl

theorem value (a : α) : Moves Unaware (pure a : NodeM α) := refl

theorem read : Moves Unaware (get : NodeM Node) := refl

theorem aside {g : Node → Node} (channels : ∀ s, (g s).channels = s.channels)
    (events : ∀ s, (g s).events = s.events) : Moves Unaware (modify g : NodeM Unit) :=
  EStateM.moves_modify fun s => of_eq (channels s) (events s)

theorem ofExcept (x : Except PyError α) : Moves Unaware (MonadExcept.ofExcept x : NodeM α) := by
  cases x with
  | ok a => exact refl
  | error e => exact refl

theorem readOffer (r : OfferRef) : Moves Unaware (readOffer r) := by
  intro s
  cases h : s.offers[r]? with
  | none => rw [readOffer_error h]; exact refl s
  | some o => rw [readOffer_ok h]; exact refl s

theorem dispatchEvents {es : List Event} (h : ∀ e ∈ es, e.ofNode = true) :
    Moves Unaware (dispatchEvents es) :=
  EStateM.moves_modify fun _ => ⟨rfl, es, rfl, h⟩

theorem callOffer (r : OfferRef) {t : OfferTrigger} {k : OfferKwargs}
    (hkwargs : t = .receivedInbound → k.raidenEvent.isSome) :
    Moves Unaware (callOffer r t k) := by
  intro s
  by_cases h : s.CanFire r t
  · obtain ⟨o, ho, hmodel, d, hd⟩ := h
    rw [callOffer_ok ho hmodel hd hkwargs]
    exact entered
  · obtain ⟨e, hrun⟩ := callOffer_error (k := k) h
    rw [hrun]
    exact refl s

theorem callOffer? (offer : Option OfferRef) {t : OfferTrigger}
    (ht : t ≠ .receivedInbound) : Moves Unaware (callOffer? offer t {}) := by
  cases offer with
  | none => exact raise _
  | some r => exact callOffer r fun h => absurd h ht

theorem matching (m : Match) : Moves Unaware (RaidexNode.matched m) := by
  unfold RaidexNode.matched
  cases m.offer with
  | none => exact raise _
  | some r =>
    refine seq (callOffer r fun h => by cases h) fun _ => seq (readOffer r) fun o => ?_
    refine dispatchEvents ?_
    rintro e (_ | ⟨_, _ | ⟨_, ⟨⟩⟩⟩) <;> rfl

/-! ### Timers, orders and the book -/

theorem createNewTimeout (env : Env) (offerId date threshold : Nat) :
    Moves Unaware (createNewTimeout env offerId date threshold) := by
  refine seq read ?_
  intro s
  split
  · exact raise _
  · refine seq (aside (fun _ => rfl) fun _ => rfl) fun _ => ?_
    refine seq (ofExcept _) fun _ => ?_
    exact seq (aside (fun _ => rfl) fun _ => rfl) fun _ => value _

theorem addOffer (orderId offerId : Nat) (r : OfferRef) :
    Moves Unaware (addOffer orderId offerId r) := by
  refine seq (aside (fun s => ?_) fun s => updateOrder_events ..) fun _ =>
    callOffer r fun h => by cases h
  unfold Node.updateOrder
  split <;> rfl

theorem removeFromBook (offerId : Nat) : Moves Unaware (removeFromBook offerId) := by
  refine seq read fun s => seq (ofExcept _) fun book => ?_
  exact aside (fun _ => rfl) fun _ => rfl

theorem createTakeOffer (e : OfferBookEntry) : Moves Unaware (createTakeOffer e) := by
  intro s
  rw [createTakeOffer_run]
  exact of_eq rfl rfl

theorem createMakeOffer (o : BasicOffer Number) : Moves Unaware (createMakeOffer o) := by
  intro s
  rw [createMakeOffer_run]
  exact of_eq rfl rfl

theorem takeOffer (env : Env) (orderId : Nat) (e : OfferBookEntry) :
    Moves Unaware (takeOffer env orderId e) := by
  refine seq (createTakeOffer e) fun r => seq (createNewTimeout env _ _ _) fun started => ?_
  cases started with
  | false => exact raise _
  | true =>
    refine seq (aside (fun _ => rfl) fun _ => rfl) fun _ => ?_
    exact seq (addOffer _ _ _) fun _ => removeFromBook _

theorem takeOffers (env : Env) (orderId : Nat) (es : List OfferBookEntry) :
    Moves Unaware (takeOffers env orderId es) := by
  induction es with
  | nil => exact value ()
  | cons e es ih => exact seq (takeOffer env orderId e) fun _ => ih

theorem offerRest (env : Env) (order : LimitOrder) (amountLeft : Number) :
    Moves Unaware (offerRest env order amountLeft) := by
  refine seq (ofExcept _) fun o => seq (createMakeOffer o) fun _ => ?_
  exact seq (createNewTimeout env _ _ _) fun _ => addOffer _ _ _

theorem processOrder (env : Env) (order : LimitOrder) :
    Moves Unaware (processOrder env order) := by
  refine seq (aside (fun _ => rfl) fun _ => rfl) fun _ => seq read fun s => ?_
  refine seq (ofExcept _) fun x => seq (takeOffers env _ _) fun _ => ?_
  split
  · exact offerRest env order _
  · exact value ()

theorem timeoutOffers (rs : List OfferRef) : Moves Unaware (timeoutOffers rs) := by
  induction rs with
  | nil => exact refl
  | cons r rs ih =>
    exact seq (callOffer r fun h => by cases h) fun _ => seq (raise _) fun _ => ih

theorem cancelOrder (orderId : Nat) : Moves Unaware (cancelOrder orderId) := by
  refine seq read ?_
  intro s
  cases s.orders.lookup orderId with
  | none => exact raise _
  | some order => exact seq (ofExcept _) timeoutOffers

theorem cleanUpTimeout (offerId : Nat) :
    Moves Unaware (modify fun s => s.cleanUpTimeout offerId : NodeM Unit) :=
  aside (fun _ => rfl) fun _ => rfl

theorem removeModel (r : OfferRef) (o : Offer) : Moves Unaware (removeModel r o) := by
  refine seq read ?_
  intro s
  cases s.findModel r o with
  | none => exact raise _
  | some r' => exact aside (fun _ => rfl) fun _ => rfl

/-! ### State changes -/

theorem handleOfferTimeout (offerId : Nat) : Moves Unaware (handleOfferTimeout offerId) := by
  refine seq read fun s => ?_
  split
  · exact seq (callOffer? _ fun h => by cases h) fun _ => cleanUpTimeout _
  · split
    · exact seq (removeFromBook _) fun _ => cleanUpTimeout _
    · exact cleanUpTimeout _

theorem handleOfferPublished (env : Env) (e : OfferBookEntry) :
    Moves Unaware (handleOfferPublished env e) := by
  refine seq read fun s => ?_
  split
  · exact callOffer? _ fun h => by cases h
  · refine seq (ofExcept _) fun book => seq (aside (fun _ => rfl) fun _ => rfl) fun _ => ?_
    exact seq (createNewTimeout env _ _ _) fun _ => value ()

theorem handleCommitmentProof (offer : Option OfferRef) (p : CommitmentProof) :
    Moves Unaware (handleCommitmentProof offer p) := by
  unfold RaidexNode.handleCommitmentProof
  have hsend : ∀ r target, Moves Unaware
      (RaidexNode.dispatchEvents [.transport (.sendProvenOffer r target)]) := fun r target =>
    dispatchEvents (List.forall_mem_singleton.mpr rfl)
  cases offer with
  | none => exact raise _
  | some r =>
    refine seq (callOffer r fun h => by cases h) fun _ => seq (readOffer r) fun o => ?_
    refine seq read ?_
    intro s
    cases s.matchesById.lookup o.offerId with
    | none => exact hsend r none
    | some m => exact seq (matching m) fun _ => hsend r (some m.target)

theorem handleTakerCall (offerId : Nat) (initiator : Address) (p : CommitmentProof) :
    Moves Unaware (handleTakerCall offerId initiator p) := by
  refine seq read fun s => ?_
  exact seq (aside (fun _ => rfl) fun _ => rfl) fun _ => matching _

theorem handleTransferReceived (e : PaymentReceivedEvent) :
    Moves Unaware (handleTransferReceived e) := by
  refine seq read fun s => ?_
  cases s.matchesById.lookup e.identifier with
  | none => exact raise _
  | some m =>
    have hinbound : Moves Unaware (receivedInbound m e) := by
      unfold receivedInbound
      cases m.offer with
      | none => exact raise _
      | some r => exact callOffer r fun _ => rfl
    refine seq hinbound fun _ => ?_
    cases m.offer with
    | none => exact raise _
    | some r =>
      refine seq (readOffer r) fun o => ?_
      split
      · exact seq (cleanUpTimeout _) fun _ => removeModel r o
      · exact value ()

/-- Only a status of the channels is about channels. -/
theorem handleStateChange (env : Env) {sc : StateChange} (h : ∀ raw, sc ≠ .channelStatus raw) :
    Moves Unaware (handleStateChange env sc) := by
  cases sc with
  | channelStatus raw => exact absurd rfl (h raw)
  | newLimitOrder data => exact processOrder env _
  | cancelLimitOrder orderId => exact cancelOrder orderId
  | offerTimeout offerId date => exact handleOfferTimeout offerId
  | commitmentProof p => exact seq read fun s => handleCommitmentProof _ p
  | cancellationProof p => exact seq read fun s => callOffer? _ fun h => by cases h
  | takerCall offerId initiator p => exact handleTakerCall offerId initiator p
  | offerPublished e => exact handleOfferPublished env e
  | transferReceived e => exact handleTransferReceived e
  | makeChannel partner token deposit => exact dispatchEvents (List.forall_mem_singleton.mpr rfl)

end Unaware

theorem handleStateChange_dispatches (env : Env) (sc : StateChange) (s : Node) :
    ∃ es, ((handleStateChange env sc).run s).state.events = s.events ++ es ∧
      ∀ e ∈ es, e.ofNode = true ∨ e = .raidenListener .channelFilter := by
  by_cases hsc : ∃ raw, sc = .channelStatus raw
  · obtain ⟨raw, rfl⟩ := hsc
    exact ⟨_, rfl, List.forall_mem_singleton.mpr (.inr rfl)⟩
  · obtain ⟨es, hes, hnode⟩ :=
      (Unaware.handleStateChange env (fun raw h => hsc ⟨raw, h⟩) s).events
    exact ⟨es, hes, fun e he => .inl (hnode e he)⟩

/-! ## The other tasks -/

/-- The tasks that dispatch nothing enqueue state changes, each as its task does. -/
theorem App.step_enqueues {C : Crypto} {a : App} {i : App.Input} (hi : i.dispatches = false) :
    ∃ scs, (a.step C i).stateChanges = a.stateChanges ++ scs ∧ ∀ sc ∈ scs, Enqueued C a i sc := by
  have hnone {b : App} (h : b.stateChanges = a.stateChanges) :
      ∃ scs, b.stateChanges = a.stateChanges ++ scs ∧ ∀ sc ∈ scs, Enqueued C a i sc :=
    ⟨[], by rw [h, List.append_nil], by simp⟩
  have hone {b : App} {sc : StateChange} (h : b.stateChanges = a.stateChanges ++ [sc])
      (hsc : Enqueued C a i sc) :
      ∃ scs, b.stateChanges = a.stateChanges ++ scs ∧ ∀ sc ∈ scs, Enqueued C a i sc :=
    ⟨[sc], h, List.forall_mem_singleton.mpr hsc⟩
  cases i with
  | postLimitOrder uuid orderType amount price =>
    simp only [step, postLimitOrder]
    split
    · exact hnone rfl
    · exact hone rfl ⟨uuid, orderType, amount, price, rfl, rfl⟩
  | deleteLimitOrder orderId =>
    simp only [step, deleteLimitOrder]
    split
    · exact hnone rfl
    next order horder =>
      split
      next hopen => exact hone rfl ⟨rfl, order, horder, hopen⟩
      · exact hnone rfl
  | makeChannel | commitmentProof | cancellationProof => exact hone rfl rfl
  | broadcast m =>
    simp only [step, receiveBroadcast]
    split
    · exact hnone rfl
    next e he => exact hone rfl ⟨m, rfl, he⟩
  | provenOffer m =>
    simp only [step, receiveProvenOffer]
    split
    · exact hnone rfl
    next initiator hsender =>
      refine ⟨_, rfl, List.forall_mem_map.mpr fun offerId hid => ?_⟩
      obtain ⟨hlisten, heq⟩ := List.mem_filter.mp hid
      exact ⟨m, rfl, hlisten, (of_decide_eq_true heq).symm, hsender, rfl⟩
  | timer offerId =>
    simp only [step, fireTimer]
    split
    · exact hnone rfl
    next t ht =>
      split
      · exact hnone rfl
      next hdead => exact hone rfl ⟨rfl, t, ht, by simpa using hdead, rfl⟩
  | startListener =>
    simp only [step, startListener]
    split <;> exact hnone rfl
  | payment | channelStatus | handle | serveCommitmentService | serveRaidenListener => cases hi

end RaidexNode
end Raidex
