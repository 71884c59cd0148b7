import Raidex.RaidexNode.App
import Raidex.RaidexNode.Handling

/-!
# Raidex.RaidexNode.Steps

What one step of the `App` does.

* `Enqueued`: which state changes the tasks of the node can enqueue, and from what.
* `stateChanges_step`: a state change in the queue was there before, or its task enqueued it.
* `step_quiet`, `step_cases`: only the consumer of the node changes offers and matches.
* `handle_idle`, `handle_cons`: what the consumer does.
-/

namespace Raidex
namespace RaidexNode
namespace App

open EStateM (Proceeds)

variable {C : Crypto} {a : App} {i : Input} {sc : StateChange}

/-! ## The consumer -/

theorem handle_idle {env : Env} (h : a.running = false ∨ a.stateChanges = []) :
    a.handle env = a := by
  unfold handle
  rcases h with h | h
  · rw [h]
  · rw [h]; cases a.running <;> rfl

theorem handle_cons {env : Env} {rest : List StateChange} (hrun : a.running = true)
    (hq : a.stateChanges = sc :: rest) : a.handle env =
      { a with node := ((handleStateChange env sc).run a.node).state
               running := ((handleStateChange env sc).run a.node).returned
               stateChanges := rest }.dispatch
        (((handleStateChange env sc).run a.node).state.events.drop a.node.events.length) := by
  unfold handle
  rw [hrun, hq]

theorem handle_cases (a : App) (env : Env) :
    (a.handle env = a ∧ (a.running = false ∨ a.stateChanges = [])) ∨
    ∃ sc rest, a.running = true ∧ a.stateChanges = sc :: rest := by
  cases hrun : a.running with
  | false => exact .inl ⟨handle_idle (.inl hrun), .inl rfl⟩
  | true =>
    cases hq : a.stateChanges with
    | nil => exact .inl ⟨handle_idle (.inr hq), .inr rfl⟩
    | cons sc rest => exact .inr ⟨sc, rest, rfl, rfl⟩

/-! ## The other steps -/

section

variable (now : Nat) (e : CommitmentServiceEvent)

theorem handleCommitmentServiceEvent_node :
    (a.handleCommitmentServiceEvent now e).node = a.node ∧
      (a.handleCommitmentServiceEvent now e).running = a.running ∧
      (a.handleCommitmentServiceEvent now e).stateChanges = a.stateChanges := by
  unfold handleCommitmentServiceEvent
  cases e <;> simp only <;> split <;> exact ⟨rfl, rfl, rfl⟩

theorem serveCommitmentService_node : (a.serveCommitmentService now).node = a.node ∧
    (a.serveCommitmentService now).running = a.running ∧
    (a.serveCommitmentService now).stateChanges = a.stateChanges := by
  unfold serveCommitmentService
  split
  · exact ⟨rfl, rfl, rfl⟩
  · exact handleCommitmentServiceEvent_node now _

theorem serveRaidenListener_node :
    a.serveRaidenListener.node = a.node ∧ a.serveRaidenListener.running = a.running := by
  unfold serveRaidenListener
  split
  · exact ⟨rfl, rfl⟩
  · simp only; split <;> exact ⟨rfl, rfl⟩

end

/-- Only the consumer of the node changes more of it than its timers. -/
theorem step_node (hi : ∀ env, i ≠ .handle env) :
    (∃ timers, (a.step C i).node = { a.node with timeoutGreenlets := timers }) ∧
      (a.step C i).running = a.running := by
  have hsame {b : App} (hnode : b.node = a.node) (hrun : b.running = a.running) :
      (∃ timers, b.node = { a.node with timeoutGreenlets := timers }) ∧ b.running = a.running :=
    ⟨⟨a.node.timeoutGreenlets, hnode⟩, hrun⟩
  cases i with
  | handle env => exact absurd rfl (hi env)
  | postLimitOrder uuid orderType amount price =>
    simp only [step, postLimitOrder]; split <;> exact hsame rfl rfl
  | deleteLimitOrder orderId =>
    simp only [step, deleteLimitOrder]; repeat' split
    all_goals exact hsame rfl rfl
  | makeChannel _ _ _ | commitmentProof _ | cancellationProof _ | channelStatus _ =>
    exact hsame rfl rfl
  | broadcast m => simp only [step, receiveBroadcast]; split <;> exact hsame rfl rfl
  | provenOffer m => simp only [step, receiveProvenOffer]; split <;> exact hsame rfl rfl
  | payment p => simp only [step, poll]; split <;> exact hsame rfl rfl
  | timer offerId =>
    simp only [step, fireTimer]; repeat' split
    · exact hsame rfl rfl
    · exact hsame rfl rfl
    · exact ⟨⟨_, rfl⟩, rfl⟩
  | startListener => simp only [step, startListener]; split <;> exact hsame rfl rfl
  | serveCommitmentService now =>
    exact hsame (serveCommitmentService_node now).1 (serveCommitmentService_node now).2.1
  | serveRaidenListener => exact hsame serveRaidenListener_node.1 serveRaidenListener_node.2

theorem step_quiet (hi : ∀ env, i ≠ .handle env) :
    Quiet a.node (a.step C i).node ∧ (a.step C i).running = a.running := by
  obtain ⟨⟨timers, hnode⟩, hrun⟩ := step_node (C := C) (a := a) hi
  exact ⟨hnode ▸ .of_eq rfl rfl rfl rfl rfl, hrun⟩

/-- A step leaves offers and matches as they are, or the consumer handles a state change. -/
theorem step_cases (C : Crypto) (a : App) (i : Input) :
    (Quiet a.node (a.step C i).node ∧ (a.step C i).running = a.running) ∨
    ∃ env sc rest, i = .handle env ∧ a.running = true ∧ a.stateChanges = sc :: rest ∧
      (a.step C i).node = ((handleStateChange env sc).run a.node).state ∧
      (a.step C i).running = ((handleStateChange env sc).run a.node).returned := by
  by_cases hhandle : ∃ env, i = .handle env
  swap
  · exact .inl (step_quiet fun env h => hhandle ⟨env, h⟩)
  obtain ⟨env, rfl⟩ := hhandle
  rcases handle_cases a env with ⟨heq, -⟩ | ⟨sc, rest, hrun, hq⟩
  · rw [step, heq]
    exact .inl ⟨.of_eq rfl rfl rfl rfl rfl, rfl⟩
  · refine .inr ⟨env, sc, rest, rfl, hrun, hq, ?_⟩
    rw [step, handle_cons hrun hq]
    exact ⟨rfl, rfl⟩

/-! ## Where state changes come from -/

/-- The step enqueues the state change. -/
def Enqueued (C : Crypto) (a : App) (i : Input) : StateChange → Prop
  | .newLimitOrder data => ∃ uuid orderType amount price,
      i = .postLimitOrder uuid orderType amount price ∧
      data = { orderId := some (createRandom32BytesId uuid), orderType := orderType,
               amount := amount, price := price, lifetime := none }
  | .cancelLimitOrder orderId => i = .deleteLimitOrder orderId ∧
      ∃ order, a.node.orders.lookup orderId = some order ∧ a.orderOpen order = true
  | .offerTimeout offerId date => i = .timer offerId ∧
      ∃ t, a.node.timeoutGreenlets.lookup offerId = some t ∧ t.dead = false ∧ t.timeoutDate = date
  | .commitmentProof m => i = .commitmentProof m
  | .cancellationProof m => i = .cancellationProof m
  | .takerCall offerId initiator p => ∃ m : ProvenOffer, i = .provenOffer m ∧
      offerId ∈ a.listening ∧ m.offer.offerId = offerId ∧ sender C m = .ok initiator ∧
      m.commitmentProof = p
  | .offerPublished e => ∃ m, i = .broadcast m ∧ ProvenOffer.toEntry C a.node.market m = some e
  | .transferReceived e => i = .serveRaidenListener ∧
      RaidenListenerEvent.paymentReceived e ∈ a.raidenListenerEvents ∧
      EventFilter.transferReceived e.initiator e.identifier ∈ a.eventFilters
  | .channelStatus raw => i = .serveRaidenListener ∧
      RaidenListenerEvent.channelStatus raw ∈ a.raidenListenerEvents
  | .makeChannel partner token deposit => i = .makeChannel partner token deposit

theorem process_some {e : RaidenListenerEvent} {f : EventFilter}
    (h : EventFilter.process e f = some sc) :
    (∃ p, e = .paymentReceived p ∧ f = .transferReceived p.initiator p.identifier ∧
      sc = .transferReceived p) ∨
    (∃ raw, e = .channelStatus raw ∧ sc = .channelStatus raw) := by
  cases f with
  | transferReceived initiator identifier =>
    cases e with
    | paymentReceived p =>
      simp only [EventFilter.process] at h
      split at h
      next hp =>
        rw [Bool.and_eq_true, decide_eq_true_iff, decide_eq_true_iff] at hp
        obtain ⟨rfl, rfl⟩ := hp
        cases h
        exact .inl ⟨p, rfl, rfl, rfl⟩
      · cases h
    | _ => cases h
  | channel =>
    cases e with
    | channelStatus raw => cases h; exact .inr ⟨raw, rfl, rfl⟩
    | _ => cases h

theorem stateChanges_newRaidenEvent {e : RaidenListenerEvent} {rest : List RaidenListenerEvent}
    (hq : a.raidenListenerEvents = e :: rest)
    (h : sc ∈ a.eventFilters.filterMap (EventFilter.process e)) :
    Enqueued C a .serveRaidenListener sc := by
  obtain ⟨f, hf, hproc⟩ := List.mem_filterMap.mp h
  have hmem : e ∈ a.raidenListenerEvents := hq ▸ List.mem_cons_self ..
  rcases process_some hproc with ⟨p, rfl, rfl, rfl⟩ | ⟨raw, rfl, rfl⟩
  · exact ⟨rfl, hmem, hf⟩
  · exact ⟨rfl, hmem⟩

/-- A state change in the queue was there before, or the step enqueued it. -/
theorem stateChanges_step (h : sc ∈ (a.step C i).stateChanges) :
    sc ∈ a.stateChanges ∨ Enqueued C a i sc := by
  cases i with
  | postLimitOrder uuid orderType amount price =>
    simp only [step, postLimitOrder] at h
    split at h
    · exact .inl h
    · refine (List.mem_append.mp h).imp_right ?_
      intro h
      obtain rfl := List.mem_singleton.mp h
      exact ⟨uuid, orderType, amount, price, rfl, rfl⟩
  | deleteLimitOrder orderId =>
    simp only [step, deleteLimitOrder] at h
    split at h
    · exact .inl h
    next order horder =>
      split at h
      next hopen =>
        refine (List.mem_append.mp h).imp_right ?_
        intro h
        obtain rfl := List.mem_singleton.mp h
        exact ⟨rfl, order, horder, hopen⟩
      · exact .inl h
  | makeChannel _ _ _ | commitmentProof _ | cancellationProof _ =>
    refine (List.mem_append.mp h).imp_right ?_
    intro h
    obtain rfl := List.mem_singleton.mp h
    rfl
  | broadcast m =>
    simp only [step, receiveBroadcast] at h
    split at h
    · exact .inl h
    next e he =>
      refine (List.mem_append.mp h).imp_right ?_
      intro h
      obtain rfl := List.mem_singleton.mp h
      exact ⟨m, rfl, he⟩
  | provenOffer m =>
    simp only [step, receiveProvenOffer] at h
    split at h
    · exact .inl h
    next initiator hsender =>
      refine (List.mem_append.mp h).imp_right ?_
      intro h
      obtain ⟨offerId, hid, rfl⟩ := List.mem_map.mp h
      obtain ⟨hlisten, heq⟩ := List.mem_filter.mp hid
      exact ⟨m, rfl, hlisten, (of_decide_eq_true heq).symm, hsender, rfl⟩
  | payment p =>
    simp only [step, poll] at h
    split at h <;> exact .inl h
  | channelStatus raw => exact .inl h
  | timer offerId =>
    simp only [step, fireTimer] at h
    split at h
    · exact .inl h
    next t ht =>
      split at h
      · exact .inl h
      next hdead =>
        refine (List.mem_append.mp h).imp_right ?_
        intro h
        obtain rfl := List.mem_singleton.mp h
        exact ⟨rfl, t, ht, by simpa using hdead, rfl⟩
  | startListener =>
    simp only [step, startListener] at h
    split at h <;> exact .inl h
  | handle env =>
    left
    rcases handle_cases a env with ⟨heq, -⟩ | ⟨sc', rest, hrun, hq⟩
    · rwa [step, heq] at h
    · rw [step, handle_cons hrun hq] at h
      exact hq ▸ List.mem_cons_of_mem _ h
  | serveCommitmentService now =>
    rw [step, (serveCommitmentService_node now).2.2] at h
    exact .inl h
  | serveRaidenListener =>
    simp only [step, serveRaidenListener] at h
    split at h
    · exact .inl h
    next e rest hq =>
      split at h
      · exact .inl h
      · exact .inl h
      all_goals exact (List.mem_append.mp h).imp_right (stateChanges_newRaidenEvent hq)

/-! ## Where queued events come from -/

theorem mem_dispatch_commitmentService {es : List Event} {e : CommitmentServiceEvent} :
    e ∈ (a.dispatch es).commitmentServiceEvents ↔
      e ∈ a.commitmentServiceEvents ∨ Event.commitmentService e ∈ es := by
  have hmem : e ∈ es.filterMap Event.toCommitmentService? ↔ Event.commitmentService e ∈ es := by
    rw [List.mem_filterMap]
    constructor
    · rintro ⟨ev, hev, h⟩
      cases ev <;> cases h
      exact hev
    · exact fun h => ⟨_, h, rfl⟩
  exact List.mem_append.trans (or_congr_right hmem)

theorem mem_dispatch_raidenListener {es : List Event} {e : RaidenListenerEvent} :
    e ∈ (a.dispatch es).raidenListenerEvents ↔
      e ∈ a.raidenListenerEvents ∨ Event.raidenListener e ∈ es := by
  have hmem : e ∈ es.filterMap Event.toRaidenListener? ↔ Event.raidenListener e ∈ es := by
    rw [List.mem_filterMap]
    constructor
    · rintro ⟨ev, hev, h⟩
      cases ev <;> cases h
      exact hev
    · exact fun h => ⟨_, h, rfl⟩
  exact List.mem_append.trans (or_congr_right hmem)

/-- The steps that dispatch or take events of the other consumers. -/
def Input.dispatches : Input → Bool
  | .payment _ | .channelStatus _ | .handle _ | .serveCommitmentService _
  | .serveRaidenListener => true
  | _ => false

structure SameQueues (a b : App) : Prop where
  commitmentServiceEvents : b.commitmentServiceEvents = a.commitmentServiceEvents
  raidenListenerEvents : b.raidenListenerEvents = a.raidenListenerEvents
  traderEvents : b.traderEvents = a.traderEvents
  transportEvents : b.transportEvents = a.transportEvents
  eventFilters : b.eventFilters = a.eventFilters

theorem step_sameQueues (hi : i.dispatches = false) : SameQueues a (a.step C i) := by
  cases i with
  | makeChannel _ _ _ | commitmentProof _ | cancellationProof _ => exact ⟨rfl, rfl, rfl, rfl, rfl⟩
  | postLimitOrder uuid orderType amount price =>
    simp only [step, postLimitOrder]; split <;> exact ⟨rfl, rfl, rfl, rfl, rfl⟩
  | deleteLimitOrder orderId =>
    simp only [step, deleteLimitOrder]; repeat' split
    all_goals exact ⟨rfl, rfl, rfl, rfl, rfl⟩
  | broadcast m =>
    simp only [step, receiveBroadcast]; split <;> exact ⟨rfl, rfl, rfl, rfl, rfl⟩
  | provenOffer m =>
    simp only [step, receiveProvenOffer]; split <;> exact ⟨rfl, rfl, rfl, rfl, rfl⟩
  | timer offerId =>
    simp only [step, fireTimer]; repeat' split
    all_goals exact ⟨rfl, rfl, rfl, rfl, rfl⟩
  | startListener =>
    simp only [step, startListener]; split <;> exact ⟨rfl, rfl, rfl, rfl, rfl⟩
  | _ => cases hi

/-- What the client of the commitment service gets was there before, or the node dispatched it. -/
theorem commitmentServiceEvents_step {e : CommitmentServiceEvent}
    (h : e ∈ (a.step C i).commitmentServiceEvents) : e ∈ a.commitmentServiceEvents ∨
      Event.commitmentService e ∈ (a.step C i).node.events := by
  cases hi : i.dispatches with
  | false => rw [(step_sameQueues hi).commitmentServiceEvents] at h; exact .inl h
  | true =>
  cases i with
  | channelStatus raw =>
    exact .inl ((mem_dispatch_commitmentService.mp h).resolve_right (by simp))
  | payment p =>
    simp only [step, poll] at h
    split at h
    · exact .inl h
    · exact .inl ((mem_dispatch_commitmentService.mp h).resolve_right (by simp))
  | handle env =>
    rcases handle_cases a env with ⟨heq, -⟩ | ⟨sc, rest, hrun, hq⟩
    · rw [step, heq] at h; exact .inl h
    · rw [step, handle_cons hrun hq] at h ⊢
      exact (mem_dispatch_commitmentService.mp h).imp_right List.mem_of_mem_drop
  | serveCommitmentService now =>
    left
    simp only [step, serveCommitmentService] at h
    split at h
    · exact h
    next e' rest hq =>
      rw [hq]
      refine List.mem_cons_of_mem _ ?_
      cases e' <;> simp only [handleCommitmentServiceEvent] at h <;> split at h <;> first
        | exact h
        | exact (mem_dispatch_commitmentService.mp h).resolve_right (by simp)
  | serveRaidenListener =>
    simp only [step, serveRaidenListener] at h
    repeat' split at h
    all_goals exact .inl h
  | _ => cases hi

/-- What the raiden listener gets: the node dispatched it, or the client of the commitment service
expects a refund, or a payment came in, or a status. -/
theorem raidenListenerEvents_step {e : RaidenListenerEvent}
    (h : e ∈ (a.step C i).raidenListenerEvents) : e ∈ a.raidenListenerEvents ∨
      Event.raidenListener e ∈ (a.step C i).node.events ∨
      (∃ r p o, CommitmentServiceEvent.receivedInbound r p ∈ a.commitmentServiceEvents ∧
        a.node.offers[r]? = some o ∧ e = .expectInbound a.commitmentServiceAddress o.offerId) ∨
      (∃ p, i = .payment p ∧ e = .paymentReceived p) ∨ ∃ raw, e = .channelStatus raw := by
  cases hi : i.dispatches with
  | false => rw [(step_sameQueues hi).raidenListenerEvents] at h; exact .inl h
  | true =>
  cases i with
  | channelStatus raw =>
    refine (mem_dispatch_raidenListener.mp h).imp_right ?_
    intro h
    exact .inr (.inr (.inr ⟨raw, by simpa using h⟩))
  | payment p =>
    simp only [step, poll] at h
    split at h
    · exact .inl h
    · refine (mem_dispatch_raidenListener.mp h).imp_right ?_
      intro h
      exact .inr (.inr (.inl ⟨p, rfl, by simpa using h⟩))
  | handle env =>
    rcases handle_cases a env with ⟨heq, -⟩ | ⟨sc, rest, hrun, hq⟩
    · rw [step, heq] at h; exact .inl h
    · rw [step, handle_cons hrun hq] at h ⊢
      exact (mem_dispatch_raidenListener.mp h).imp_right fun h => .inl (List.mem_of_mem_drop h)
  | serveCommitmentService now =>
    simp only [step, serveCommitmentService] at h
    split at h
    · exact .inl h
    next e' rest hq =>
      cases e' with
      | receivedInbound r p =>
        simp only [handleCommitmentServiceEvent] at h
        split at h
        · exact .inl h
        next o ho =>
          refine (mem_dispatch_raidenListener.mp h).imp_right ?_
          intro h
          exact .inr (.inl ⟨r, p, o, hq ▸ List.mem_cons_self .., ho, by simpa using h⟩)
      | _ =>
        simp only [handleCommitmentServiceEvent] at h
        split at h
        all_goals first
          | exact .inl h
          | exact .inl ((mem_dispatch_raidenListener.mp h).resolve_right (by simp))
  | serveRaidenListener =>
    left
    simp only [step, serveRaidenListener] at h
    split at h
    · exact h
    next e' rest hq =>
      rw [hq]
      refine List.mem_cons_of_mem _ ?_
      split at h <;> exact h
  | _ => cases hi

/-- A filter was there before, or the node expects the payment. -/
theorem eventFilters_step {initiator : Address} {identifier : Nat}
    (h : EventFilter.transferReceived initiator identifier ∈ (a.step C i).eventFilters) :
    EventFilter.transferReceived initiator identifier ∈ a.eventFilters ∨
      RaidenListenerEvent.expectInbound initiator identifier ∈ a.raidenListenerEvents := by
  cases hi : i.dispatches with
  | false => rw [(step_sameQueues hi).eventFilters] at h; exact .inl h
  | true =>
  cases i with
  | channelStatus raw => exact .inl h
  | payment p => simp only [step, poll] at h; split at h <;> exact .inl h
  | handle env =>
    rcases handle_cases a env with ⟨heq, -⟩ | ⟨sc, rest, hrun, hq⟩
    · rw [step, heq] at h; exact .inl h
    · rw [step, handle_cons hrun hq] at h
      exact .inl h
  | serveCommitmentService now =>
    left
    simp only [step, serveCommitmentService] at h
    split at h
    · exact h
    next e' rest hq =>
      cases e' <;> simp only [handleCommitmentServiceEvent] at h <;> split at h <;> exact h
  | serveRaidenListener =>
    simp only [step, serveRaidenListener] at h
    split at h
    · exact .inl h
    next e rest hq =>
      split at h
      · refine (List.mem_append.mp h).imp_right ?_
        intro h
        cases List.mem_singleton.mp h
        exact hq ▸ List.mem_cons_self ..
      · exact .inl ((List.mem_append.mp h).resolve_right (by simp))
      all_goals exact .inl (List.mem_filter.mp h).1
  | _ => cases hi

end App

end RaidexNode
end Raidex
