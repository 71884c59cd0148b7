import Raidex.RaidexNode.Awaiting

/-!
# Raidex.RaidexNode.Expectations

The payments that a node waits for.

The node asks for the payment of the counterparty when it makes a match, and its client asks for
the refund when the execution is reported. What is asked for becomes a filter, the filter takes
one payment and is used up, and the payment waits for the consumer of the node.

* `App.sendersFor`: the senders of the payments that are expected for an id, wherever that is
  known: in a filter, in a request for one, in a payment that was taken or in a report.
* `payments_awaited`: as long as the consumer of the node runs, one payment is expected for each
  offer that waits for one, and none for any other.
-/

namespace Raidex
namespace RaidexNode

/-- The senders of the payments that are expected for an id. -/
def App.sendersFor (a : App) (id : Nat) : List Address :=
  a.eventFilters.filterMap (EventFilter.senderFor id) ++
    a.raidenListenerEvents.filterMap (RaidenListenerEvent.senderFor id) ++
    a.stateChanges.filterMap (StateChange.senderFor id) ++
    a.commitmentServiceEvents.filterMap
      (CommitmentServiceEvent.senderFor a.commitmentServiceAddress a.node id)

/-! ## The queues -/

namespace App

variable {C : Crypto} {a b : App} {i : Input}

theorem filterMap_senderFor_split (service : Address) (s : Node) (id : Nat) (es : List Event) :
    ((es.filterMap Event.toRaidenListener?).filterMap (RaidenListenerEvent.senderFor id) ++
      (es.filterMap Event.toCommitmentService?).filterMap
        (CommitmentServiceEvent.senderFor service s id)).Perm
      (es.filterMap (Event.senderFor service s id)) := by
  induction es with
  | nil => exact .refl _
  | cons ev es ih =>
    cases ev with
    | raidenListener e =>
      simp only [List.filterMap_cons, Event.toRaidenListener?, Event.toCommitmentService?,
        Event.senderFor]
      cases e.senderFor id with
      | none => exact ih
      | some sender => exact ih.cons sender
    | commitmentService e =>
      simp only [List.filterMap_cons, Event.toRaidenListener?, Event.toCommitmentService?,
        Event.senderFor]
      cases e.senderFor service s id with
      | none => exact ih
      | some sender => exact List.perm_middle.trans (ih.cons sender)
    | trader | transport => exact ih

theorem sendersFor_dispatch (a : App) (es : List Event) (id : Nat) :
    ((a.dispatch es).sendersFor id).Perm (a.sendersFor id ++
      es.filterMap (Event.senderFor a.commitmentServiceAddress a.node id)) := by
  have hsplit := filterMap_senderFor_split a.commitmentServiceAddress a.node id es
  rw [List.perm_iff_count] at hsplit ⊢
  intro sender
  have hcount := hsplit sender
  simp only [sendersFor, dispatch, List.filterMap_append, List.count_append] at hcount ⊢
  omega

/-- What a filter takes was expected from its sender. -/
theorem senderFor_process {e : RaidenListenerEvent} {f : EventFilter} {sc : StateChange}
    (h : f.process e = some sc) (id : Nat) : sc.senderFor id = f.senderFor id := by
  rcases process_some h with ⟨p, rfl, rfl, rfl⟩ | ⟨raw, rfl, rfl⟩
  · rfl
  · cases f with
    | channel => rfl
    | transferReceived => cases h

/-- A filter is kept or what it takes is enqueued. -/
theorem filters_process (e : RaidenListenerEvent) (id : Nat) (fs : List EventFilter) :
    (((fs.filter fun f => (f.process e).isNone).filterMap (EventFilter.senderFor id)) ++
      (fs.filterMap (EventFilter.process e)).filterMap (StateChange.senderFor id)).Perm
      (fs.filterMap (EventFilter.senderFor id)) := by
  induction fs with
  | nil => exact .refl _
  | cons f fs ih =>
    cases hf : f.process e with
    | none =>
      rw [List.filter_cons_of_pos (by rw [hf]; rfl), List.filterMap_cons_none hf,
        List.filterMap_cons, List.filterMap_cons]
      cases f.senderFor id with
      | none => exact ih
      | some sender => exact ih.cons sender
    | some sc =>
      rw [List.filter_cons_of_neg (by rw [hf]; simp), List.filterMap_cons_some hf,
        List.filterMap_cons (f := StateChange.senderFor id), senderFor_process hf id,
        List.filterMap_cons (f := EventFilter.senderFor id)]
      cases f.senderFor id with
      | none => exact ih
      | some sender => exact List.perm_middle.trans (ih.cons sender)

theorem sendersFor_newRaidenEvent (a : App) (e : RaidenListenerEvent) (id : Nat) :
    ((a.newRaidenEvent e).sendersFor id).Perm (a.sendersFor id) := by
  have hsplit := filters_process e id a.eventFilters
  rw [List.perm_iff_count] at hsplit ⊢
  intro sender
  have hcount := hsplit sender
  simp only [sendersFor, newRaidenEvent, enqueue, List.filterMap_append, List.count_append]
    at hcount ⊢
  omega

theorem sendersFor_serveRaidenListener (a : App) (id : Nat) :
    (a.serveRaidenListener.sendersFor id).Perm (a.sendersFor id) := by
  unfold serveRaidenListener
  cases hq : a.raidenListenerEvents with
  | nil => exact .refl _
  | cons e rest =>
    have hrest : (e.senderFor id) = none →
        ({ a with raidenListenerEvents := rest } : App).sendersFor id = a.sendersFor id := by
      intro hnone
      simp only [sendersFor, hq, List.filterMap_cons_none hnone]
    cases e with
    | expectInbound initiator identifier =>
      rw [List.perm_iff_count]
      intro sender
      simp only [addEventFilter, sendersFor, hq, List.filterMap_append, List.filterMap_cons,
        List.count_append, EventFilter.senderFor, RaidenListenerEvent.senderFor, List.filterMap_nil]
      split_ifs
      · simp [List.count_cons]
        omega
      · simp
    | channelFilter =>
      have hchannel : (EventFilter.channel).senderFor id = none := rfl
      rw [← hrest rfl]
      simp only [addEventFilter, sendersFor, List.filterMap_append,
        List.filterMap_cons_none hchannel, List.filterMap_nil, List.append_nil]
      exact .refl _
    | paymentReceived | channelStatus =>
      rw [← hrest rfl]
      exact sendersFor_newRaidenEvent _ _ id

theorem sendersFor_serveCommitmentService (a : App) (now id : Nat) :
    ((a.serveCommitmentService now).sendersFor id).Perm (a.sendersFor id) := by
  unfold serveCommitmentService
  cases hq : a.commitmentServiceEvents with
  | nil => exact .refl _
  | cons e rest =>
    have hrest : (({ a with commitmentServiceEvents := rest } : App).sendersFor id ++
        (e.senderFor a.commitmentServiceAddress a.node id).toList).Perm (a.sendersFor id) := by
      unfold sendersFor
      rw [hq, List.filterMap_cons_toList, List.append_assoc]
      exact List.perm_append_comm.append_left _
    have hsilent (h : e.senderFor a.commitmentServiceAddress a.node id = none) :
        (({ a with commitmentServiceEvents := rest } : App).sendersFor id).Perm
          (a.sendersFor id) := by
      rwa [h, Option.toList_none, List.append_nil] at hrest
    have hdispatch (es : List Event)
        (h : es.filterMap (Event.senderFor a.commitmentServiceAddress a.node id) =
          (e.senderFor a.commitmentServiceAddress a.node id).toList) :
        ((({ a with commitmentServiceEvents := rest } : App).dispatch es).sendersFor id).Perm
          (a.sendersFor id) :=
      (sendersFor_dispatch _ es id).trans (h ▸ hrest)
    cases e with
    | commit r | cancellationRequest r =>
      simp only [handleCommitmentServiceEvent]
      split
      · exact hsilent rfl
      · exact hdispatch _ rfl
    | commitmentProved r =>
      simp only [handleCommitmentServiceEvent]
      split <;> exact hsilent rfl
    | receivedInbound r p =>
      simp only [handleCommitmentServiceEvent]
      cases ho : a.node.offers[r]? with
      | none => exact hsilent (by simp [CommitmentServiceEvent.senderFor, ho])
      | some o =>
        refine hdispatch _ ?_
        simp only [Event.senderFor, RaidenListenerEvent.senderFor,
          CommitmentServiceEvent.senderFor, ho, Option.bind_some, List.filterMap_cons,
          List.filterMap_nil]
        split_ifs <;> rfl

/-- The other tasks neither expect nor take payments. -/
theorem sendersFor_step (hi : ∀ env, i ≠ .handle env) (id : Nat) :
    ((a.step C i).sendersFor id).Perm (a.sendersFor id) := by
  cases hdispatches : i.dispatches with
  | false =>
    obtain ⟨scs, hscs, henqueued⟩ := step_enqueues (C := C) (a := a) hdispatches
    have hqueues := step_sameQueues (C := C) (a := a) hdispatches
    have hserve : ∀ now, i ≠ .serveCommitmentService now := by
      rintro now rfl
      cases hdispatches
    have htalk := step_sameTalk (C := C) (a := a) hi hserve
    have hnone : scs.filterMap (StateChange.senderFor id) = [] := by
      refine List.filterMap_eq_nil_iff.mpr fun sc hsc => ?_
      have hfrom := henqueued sc hsc
      cases sc with
      | transferReceived e =>
        obtain ⟨rfl, -⟩ := hfrom
        cases hdispatches
      | _ => rfl
    have hsender : CommitmentServiceEvent.senderFor (a.step C i).commitmentServiceAddress
        (a.step C i).node id =
        CommitmentServiceEvent.senderFor a.commitmentServiceAddress a.node id := by
      funext e
      cases e <;> simp only [CommitmentServiceEvent.senderFor, htalk.offers, htalk.service]
    unfold sendersFor
    rw [hqueues.eventFilters, hqueues.raidenListenerEvents, hqueues.commitmentServiceEvents, hscs,
      hsender, List.filterMap_append, hnone, List.append_nil]
  | true =>
  cases i with
  | handle env => exact absurd rfl (hi env)
  | serveRaidenListener => exact sendersFor_serveRaidenListener a id
  | serveCommitmentService now => exact sendersFor_serveCommitmentService a now id
  | channelStatus raw =>
    refine (sendersFor_dispatch a _ id).trans (.of_eq ?_)
    exact List.append_nil _
  | payment p =>
    simp only [step, poll]
    split
    · exact .refl _
    · refine (sendersFor_dispatch _ _ id).trans (.of_eq ?_)
      exact List.append_nil _
  | _ => cases hdispatches

theorem step_service (C : Crypto) (a : App) (i : Input) :
    (a.step C i).commitmentServiceAddress = a.commitmentServiceAddress := by
  by_cases hhandle : ∃ env, i = .handle env
  · obtain ⟨env, rfl⟩ := hhandle
    rcases handle_cases a env with ⟨heq, -⟩ | ⟨sc, rest, hrun, hq⟩
    · rw [step, heq]
    · rw [step, handle_cons hrun hq]
      rfl
  by_cases hserve : ∃ now, i = .serveCommitmentService now
  · obtain ⟨now, rfl⟩ := hserve
    simp only [step, serveCommitmentService]
    split
    · rfl
    · unfold handleCommitmentServiceEvent
      split <;> split <;> rfl
  · exact (step_sameTalk (fun env h => hhandle ⟨env, h⟩) fun now h => hserve ⟨now, h⟩).service

end App

/-! ## Runs -/

/-- The senders and ids of the payments that the poller saw. -/
def paymentsSeen (is : List App.Input) : List (Address × Nat) :=
  (paymentsReceived is).map fun p => (p.initiator, p.identifier)

structure Expects (h : List App.Input) (a : App) : Prop where
  corresponds : Corresponds a
  execution : a.running = true → ExecutionInv h a
  expecting : a.running = true →
    Expecting a.commitmentServiceAddress (paymentsSeen h) a.node a.sendersFor

namespace Expects

variable {C : Crypto} {h : List App.Input} {a : App} {i : App.Input}

theorem init (market : TokenPair) (commitmentServiceAddress : Address) :
    Expects [] (.init market commitmentServiceAddress) where
  corresponds := .init market commitmentServiceAddress
  execution _ := .init market commitmentServiceAddress
  expecting _ := ⟨by simp [App.init, Node.init], fun _ _ => rfl⟩

theorem paymentsSeen_subset (h : List App.Input) (i : App.Input) :
    paymentsSeen h ⊆ paymentsSeen (h ++ [i]) := by
  rw [paymentsSeen, paymentsSeen, ExecutionInv.paymentsReceived_concat, List.map_append]
  exact List.subset_append_left _ _

/-- The senders that events stand for do not change later. -/
theorem senderFor_advances {s s' : Node} (hadv : s.Advances s') {e : CommitmentServiceEvent}
    {o : Offer} (ho : s.offers[e.offer]? = some o) (service : Address) (id : Nat) :
    e.senderFor service s' id = e.senderFor service s id := by
  obtain ⟨o', ho', hlater⟩ := hadv _ o ho
  cases e <;> simp only [CommitmentServiceEvent.offer] at ho ho' <;>
    simp [CommitmentServiceEvent.senderFor, ho, ho', hlater.offerId]

/-- The consumer of the node handles a state change and goes on. -/
theorem handle (hs : Expects h a) {env : Env} {sc : StateChange} {rest : List StateChange}
    (hrun : a.running = true) (hq : a.stateChanges = sc :: rest)
    (hfresh : FreshIds env a.node sc)
    (hret : ((handleStateChange env sc).run a.node).returned = true) :
    Expecting (a.handle env).commitmentServiceAddress (paymentsSeen h) (a.handle env).node
      (a.handle env).sendersFor := by
  have hexecution := hs.execution hrun
  -- what is expected besides what the state change takes
  let base (s : Node) (id : Nat) : List Address :=
    a.eventFilters.filterMap (EventFilter.senderFor id) ++
      a.raidenListenerEvents.filterMap (RaidenListenerEvent.senderFor id) ++
      rest.filterMap (StateChange.senderFor id) ++
      a.commitmentServiceEvents.filterMap
        (CommitmentServiceEvent.senderFor a.commitmentServiceAddress s id)
  have hbefore : Expecting a.commitmentServiceAddress (paymentsSeen h) a.node
      fun id => (sc.senderFor id).toList ++ base a.node id := by
    refine (hs.expecting hrun).perm fun id => ?_
    rw [List.perm_iff_count]
    intro sender
    simp only [base, App.sendersFor, hq, List.filterMap_cons_toList, List.count_append]
    omega
  have hseen : ∀ e, sc = .transferReceived e → (e.initiator, e.identifier) ∈ paymentsSeen h := by
    rintro e rfl
    have hqueued := hexecution.queued e (hq ▸ List.mem_cons_self ..)
    exact List.mem_map_of_mem hqueued.2
  obtain ⟨es, hes, hafter⟩ := hbefore.step hexecution.paired hs.corresponds.filed hfresh hseen hret
  have hbase (id : Nat) : base ((handleStateChange env sc).run a.node).state id =
      base a.node id := by
    obtain ⟨done, hrelays⟩ := hs.corresponds.relays
    have hadv : a.node.Advances ((handleStateChange env sc).run a.node).state :=
      (handled_proceeds env sc a.node).invariant (.of_eq rfl)
        (fun _ _ heff hP => hP.trans heff.advances) (fun _ _ hb hP => hP.trans hb.advances)
        fun _ hP => hP
    refine congrArg _ (List.filterMap_congr fun e he => ?_)
    obtain ⟨o, ho⟩ := hrelays.known hs.corresponds.talks e (List.mem_append_right _ he)
    exact senderFor_advances hadv ho _ id
  rw [App.handle_cons hrun hq, hes, List.drop_left]
  refine hafter.perm fun id => (App.sendersFor_dispatch _ es id).trans (.of_eq ?_)
  exact congrArg (· ++ _) (hbase id)

/-- The node goes on to know its matches. -/
theorem executed (hs : Expects h a) (hi : a.Registers i) (hrun : (a.step C i).running = true) :
    ExecutionInv (h ++ [i]) (a.step C i) := by
  rcases a.step_cases C i with ⟨hquiet, hrun'⟩ | ⟨env, sc, rest, rfl, hrunning, hq, hnode, hrun'⟩
  · have hexecution := hs.execution (hrun' ▸ hrun)
    exact hexecution.step (hexecution.paired.quiet hquiet)
      (.of_advances (.of_eq hquiet.offers) fun _ _ hm => hquiet.matchesById ▸ hm)
  · have hexecution := hs.execution hrunning
    have hfresh : FreshIds env a.node sc := hi hrunning sc (by rw [hq]; rfl)
    have hproceeds := handleStateChange_proceeds fun _ : True => hfresh
    obtain ⟨hpaired, hkeeps⟩ := hproceeds.keeps (P := fun s => Paired s ∧ Keeps a.node s)
      ⟨hexecution.paired, .refl _⟩ (fun s s' heff hP => ⟨(hP.1.effect heff).1,
        hP.2.trans (hP.1.effect heff).2⟩) (hrun' ▸ hrun)
    exact hexecution.step (hnode ▸ hpaired) (hnode ▸ hkeeps)

theorem step (hs : Expects h a) (hi : a.Registers i) : Expects (h ++ [i]) (a.step C i) := by
  refine ⟨hs.corresponds.step hi, hs.executed hi, fun hrun => ?_⟩
  have hseen := paymentsSeen_subset h i
  by_cases hhandle : ∃ env, i = .handle env
  · obtain ⟨env, rfl⟩ := hhandle
    rcases App.handle_cases a env with ⟨heq, -⟩ | ⟨sc, rest, hrunning, hq⟩
    · rw [App.step, heq] at hrun ⊢
      exact (hs.expecting hrun).of_eq rfl rfl rfl hseen
    · have hfresh : FreshIds env a.node sc := hi hrunning sc (by rw [hq]; rfl)
      have hret : ((handleStateChange env sc).run a.node).returned = true := by
        rw [App.step, App.handle_cons hrunning hq] at hrun
        exact hrun
      exact (hs.handle hrunning hq hfresh hret).of_eq rfl rfl rfl hseen
  · have hne : ∀ env, i ≠ .handle env := fun env h => hhandle ⟨env, h⟩
    obtain ⟨hquiet, hrun'⟩ := App.step_quiet (C := C) (a := a) hne
    rw [App.step_service]
    refine Expecting.perm ?_ fun id => App.sendersFor_step hne id
    exact (hs.expecting (hrun' ▸ hrun)).of_eq hquiet.offers hquiet.offerManager
      hquiet.matchesById hseen

end Expects

/-- In a run whose orders register unknown ids, as long as the consumer of the node runs: exactly
one payment is expected for an offer that is exchanging, that of the counterparty of its match;
exactly one for an offer that waits for its refund, that of the commitment service, and the
counterparty has paid; none for any other offer or id. A completed offer has had both payments. -/
theorem payments_awaited (C : Crypto) (market : TokenPair) (commitmentServiceAddress : Address)
    (is : List App.Input)
    (h : LTS.AllSteps (App.step C) App.Registers (.init market commitmentServiceAddress) is)
    (hrun : (App.run C market commitmentServiceAddress is).running = true) :
    Expecting commitmentServiceAddress (paymentsSeen is)
      (App.run C market commitmentServiceAddress is).node
      (App.run C market commitmentServiceAddress is).sendersFor := by
  have hinv : Expects is (App.run C market commitmentServiceAddress is) :=
    LTS.run_invariant_of_guard (App.step C) App.Registers Expects
      (.init market commitmentServiceAddress) (fun _ _ _ hs hi => hs.step hi) is h
  have hservice : (App.run C market commitmentServiceAddress is).commitmentServiceAddress =
      commitmentServiceAddress :=
    LTS.run_invariant (App.step C)
      (fun _ a => a.commitmentServiceAddress = commitmentServiceAddress)
      rfl (fun _ a i hs => (App.step_service C a i).trans hs) is
  have hexpecting := hinv.expecting hrun
  rwa [hservice] at hexpecting

theorem paid_offer_awaits_refund :
    Expecting 9 [(4, 7)] (App.run .plain { baseToken := 1, quoteToken := 2 } 9 spokenOf).node
      (App.run .plain { baseToken := 1, quoteToken := 2 } 9 spokenOf).sendersFor ∧
    (App.run .plain { baseToken := 1, quoteToken := 2 } 9 spokenOf).sendersFor 7 = [9] :=
  ⟨payments_awaited .plain { baseToken := 1, quoteToken := 2 } 9 spokenOf (by decide +kernel)
    (by decide +kernel), by decide +kernel⟩

end RaidexNode
end Raidex
