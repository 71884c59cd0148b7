import Raidex.RaidexNode.Dispatches

/-!
# Raidex.RaidexNode.Channels

The statuses of the channels, from the poller to the API.

A `ChannelFilter` takes one status and is used up; the node asks for the next one when it has
shown the last. What is polled meanwhile is dropped.

* `App.tokens`: the filter, the event that asks for it, or the status on its way.
* `channels_shown`: there is always exactly one; statuses are shown in the order they are polled.
-/

namespace Raidex
namespace RaidexNode

open scoped List

/-! ## Statuses and tokens -/

def Event.aboutChannels : Event → Bool
  | .raidenListener .channelFilter | .raidenListener (.channelStatus _) => true
  | _ => false

theorem not_aboutChannels {e : Event} (h : e.ofNode = true) : e.aboutChannels = false := by
  cases e with
  | raidenListener e => cases e <;> first | rfl | cases h
  | commitmentService | trader | transport => rfl

def StateChange.status? : StateChange → Option String
  | .channelStatus raw => some raw
  | _ => none

def RaidenListenerEvent.status? : RaidenListenerEvent → Option String
  | .channelStatus raw => some raw
  | _ => none

namespace App

/-- The statuses that have been polled and not shown, the next one first. -/
def statuses (a : App) : List String :=
  a.stateChanges.filterMap StateChange.status? ++
    a.raidenListenerEvents.filterMap RaidenListenerEvent.status?

/-- The filters for a status, the requests for one, and the statuses that filters have taken. -/
def tokens (a : App) : Nat :=
  a.eventFilters.count .channel + a.raidenListenerEvents.count .channelFilter +
    (a.stateChanges.filterMap StateChange.status?).length

/-- The status that the node takes in a step. -/
def shows (x : App × Input) : List String :=
  match x.2, x.1.running, x.1.stateChanges with
  | .handle _, true, .channelStatus raw :: _ => [raw]
  | _, _, _ => []

def Input.polled : Input → List String
  | .channelStatus raw => [raw]
  | _ => []

/-- All that concerns the channels is as before. -/
structure SameChannels (a b : App) : Prop where
  channels : b.node.channels = a.node.channels
  eventFilters : b.eventFilters.count .channel = a.eventFilters.count .channel
  requests : b.raidenListenerEvents.count .channelFilter =
    a.raidenListenerEvents.count .channelFilter
  polled : b.raidenListenerEvents.filterMap RaidenListenerEvent.status? =
    a.raidenListenerEvents.filterMap RaidenListenerEvent.status?
  taken : b.stateChanges.filterMap StateChange.status? =
    a.stateChanges.filterMap StateChange.status?

variable {C : Crypto} {a b c : App} {i : Input}

theorem SameChannels.refl (a : App) : SameChannels a a := ⟨rfl, rfl, rfl, rfl, rfl⟩

theorem SameChannels.trans (h : SameChannels a b) (h' : SameChannels b c) : SameChannels a c where
  channels := h'.channels.trans h.channels
  eventFilters := h'.eventFilters.trans h.eventFilters
  requests := h'.requests.trans h.requests
  polled := h'.polled.trans h.polled
  taken := h'.taken.trans h.taken

theorem SameChannels.tokens (h : SameChannels a b) : b.tokens = a.tokens := by
  rw [App.tokens, h.eventFilters, h.requests, h.taken, App.tokens]

theorem SameChannels.statuses (h : SameChannels a b) : b.statuses = a.statuses := by
  rw [App.statuses, h.taken, h.polled, App.statuses]

theorem sameChannels_enqueue {scs : List StateChange} (h : ∀ sc ∈ scs, sc.status? = none) :
    SameChannels a (a.enqueue scs) := by
  refine ⟨rfl, rfl, rfl, rfl, ?_⟩
  simp only [enqueue, List.filterMap_append, List.filterMap_eq_nil_iff.mpr h, List.append_nil]

theorem sameChannels_dispatch {es : List Event} (h : ∀ e ∈ es, e.aboutChannels = false) :
    SameChannels a (a.dispatch es) := by
  have hevents : ∀ e ∈ es.filterMap Event.toRaidenListener?,
      e ≠ .channelFilter ∧ e.status? = none := by
    intro e he
    obtain ⟨x, hx, hxe⟩ := List.mem_filterMap.mp he
    have haside := h x hx
    cases x with
    | raidenListener e' =>
      obtain rfl := Option.some.inj hxe
      cases e' with
      | expectInbound | paymentReceived => exact ⟨fun h => (by cases h), rfl⟩
      | channelFilter | channelStatus => cases haside
    | commitmentService | trader | transport => cases hxe
  have hcount : (es.filterMap Event.toRaidenListener?).count .channelFilter = 0 :=
    List.count_eq_zero.mpr fun hmem => (hevents _ hmem).1 rfl
  refine ⟨rfl, rfl, ?_, ?_, rfl⟩
  · simp only [dispatch, List.count_append, hcount, Nat.add_zero]
  · simp only [dispatch, List.filterMap_append, List.append_nil,
      List.filterMap_eq_nil_iff.mpr fun e he => (hevents e he).2]

theorem sameChannels_serveCommitmentService (now : Nat) :
    SameChannels a (a.serveCommitmentService now) := by
  unfold serveCommitmentService
  split
  · exact .refl a
  next e rest h =>
    refine SameChannels.trans (b := { a with commitmentServiceEvents := rest })
      ⟨rfl, rfl, rfl, rfl, rfl⟩ ?_
    unfold handleCommitmentServiceEvent
    cases e <;> dsimp only <;> split
    all_goals first
      | exact .refl _
      | exact ⟨rfl, rfl, rfl, rfl, rfl⟩
      | refine sameChannels_dispatch ?_; simp [Event.aboutChannels]

/-- The other tasks leave the channels alone. -/
theorem step_sameChannels (hhandle : ∀ env, i ≠ .handle env)
    (hserve : i ≠ .serveRaidenListener) (hstatus : ∀ raw, i ≠ .channelStatus raw) :
    SameChannels a (a.step C i) := by
  cases hi : i.dispatches with
  | false =>
    obtain ⟨scs, hscs, henqueued⟩ := step_enqueues (C := C) (a := a) hi
    have hqueues := step_sameQueues (C := C) (a := a) hi
    obtain ⟨⟨timers, hnode⟩, -⟩ := step_node (C := C) (a := a) hhandle
    refine ⟨by rw [hnode], by rw [hqueues.eventFilters], by rw [hqueues.raidenListenerEvents],
      by rw [hqueues.raidenListenerEvents], ?_⟩
    have hnone : scs.filterMap StateChange.status? = [] := by
      refine List.filterMap_eq_nil_iff.mpr fun sc hsc => ?_
      have hfrom := henqueued sc hsc
      cases sc with
      | channelStatus raw => exact absurd hfrom.1 hserve
      | _ => rfl
    rw [hscs, List.filterMap_append, hnone, List.append_nil]
  | true =>
  cases i with
  | handle env => exact absurd rfl (hhandle env)
  | serveRaidenListener => exact absurd rfl hserve
  | channelStatus raw => exact absurd rfl (hstatus raw)
  | payment p =>
    simp only [step, poll]
    split
    · exact .refl a
    · refine SameChannels.trans
        (b := { a with raidenEvents := a.raidenEvents ++ [(p.initiator, p.identifier)] })
        ⟨rfl, rfl, rfl, rfl, rfl⟩ (sameChannels_dispatch (List.forall_mem_singleton.mpr rfl))
  | serveCommitmentService now => exact sameChannels_serveCommitmentService now
  | _ => cases hi

/-! ## The consumers -/

theorem shows_of_ne {env : Env} {sc : StateChange} {rest : List StateChange}
    (hrun : a.running = true) (hq : a.stateChanges = sc :: rest) :
    shows (a, .handle env) = sc.status?.toList := by
  unfold shows
  simp only [hrun, hq]
  cases sc <;> rfl

/-- The consumer of the node shows a status and asks for the next. -/
theorem handle_channelStatus (env : Env) {raw : String} {rest : List StateChange}
    (hrun : a.running = true) (hq : a.stateChanges = .channelStatus raw :: rest) :
    (a.handle env).node.channels = raw ∧ (a.handle env).eventFilters = a.eventFilters ∧
      (a.handle env).raidenListenerEvents = a.raidenListenerEvents ++ [.channelFilter] ∧
      (a.handle env).stateChanges = rest := by
  have hstate : ((handleStateChange env (.channelStatus raw)).run a.node).state =
      { a.node with channels := raw
                    events := a.node.events ++ [.raidenListener .channelFilter] } := rfl
  rw [handle_cons hrun hq, hstate]
  refine ⟨rfl, rfl, ?_, rfl⟩
  simp only [dispatch, List.drop_left]
  rfl

theorem handle_unaware (env : Env) {sc : StateChange} {rest : List StateChange}
    (hrun : a.running = true) (hq : a.stateChanges = sc :: rest)
    (hsc : ∀ raw, sc ≠ .channelStatus raw) :
    SameChannels { a with stateChanges := rest } (a.handle env) := by
  have hunaware := Unaware.handleStateChange env hsc a.node
  obtain ⟨es, hes, hnode⟩ := hunaware.events
  rw [handle_cons hrun hq, hes, List.drop_left]
  refine SameChannels.trans ?_ (sameChannels_dispatch fun e he => not_aboutChannels (hnode e he))
  exact ⟨hunaware.channels, rfl, rfl, rfl, rfl⟩

theorem handle_channels (a : App) (env : Env) : (a.handle env).tokens = a.tokens ∧
    a.statuses = shows (a, .handle env) ++ (a.handle env).statuses ∧
    (a.handle env).node.channels = (shows (a, .handle env)).getLast?.getD a.node.channels := by
  rcases handle_cases a env with ⟨heq, hidle⟩ | ⟨sc, rest, hrun, hq⟩
  · have hshows : shows (a, .handle env) = [] := by
      unfold shows
      rcases hidle with h | h <;> simp [h]
    rw [heq, hshows]
    exact ⟨rfl, rfl, rfl⟩
  · rw [shows_of_ne hrun hq]
    by_cases hsc : ∃ raw, sc = .channelStatus raw
    · obtain ⟨raw, rfl⟩ := hsc
      obtain ⟨hchannels, hfilters, hevents, hrest⟩ := handle_channelStatus env hrun hq
      refine ⟨?_, ?_, hchannels⟩
      · unfold tokens
        rw [hfilters, hevents, hrest, hq]
        simp [StateChange.status?]
        omega
      · unfold statuses
        rw [hevents, hrest, hq]
        simp [StateChange.status?, RaidenListenerEvent.status?]
    · have hne : ∀ raw, sc ≠ .channelStatus raw := fun raw h => hsc ⟨raw, h⟩
      have hnone : sc.status? = none := by
        cases sc <;> first | rfl | exact absurd rfl (hne _)
      have hsame := handle_unaware env hrun hq hne
      have htaken : a.stateChanges.filterMap StateChange.status? =
          rest.filterMap StateChange.status? := by
        rw [hq, List.filterMap_cons_none hnone]
      rw [hsame.tokens, hsame.statuses, hnone]
      refine ⟨?_, ?_, hsame.channels⟩
      · rw [tokens, tokens, htaken]
      · rw [statuses, statuses, htaken]
        rfl

theorem process_paymentReceived (p : PaymentReceivedEvent) (f : EventFilter) :
    (f.process (.paymentReceived p)).bind StateChange.status? = none := by
  cases f with
  | channel => rfl
  | transferReceived initiator identifier =>
    unfold EventFilter.process
    dsimp only
    split_ifs <;> rfl

theorem process_channelStatus (raw : String) (f : EventFilter) :
    f.process (.channelStatus raw) =
      if f = .channel then some (.channelStatus raw) else none := by
  cases f with
  | channel => rfl
  | transferReceived => simp [EventFilter.process]

/-- Every `ChannelFilter` takes the status. -/
theorem newRaidenEvent_channelStatus (raw : String) :
    (a.newRaidenEvent (.channelStatus raw)).eventFilters.count .channel = 0 ∧
    (a.newRaidenEvent (.channelStatus raw)).stateChanges = a.stateChanges ++
      List.replicate (a.eventFilters.count .channel) (.channelStatus raw) := by
  constructor
  · refine List.count_eq_zero.mpr ?_
    intro hmem
    have hfilter := (List.mem_filter.mp hmem).2
    rw [process_channelStatus] at hfilter
    simp at hfilter
  · refine congrArg (a.stateChanges ++ ·) ?_
    induction a.eventFilters with
    | nil => rfl
    | cons f fs ih =>
      rw [List.filterMap_cons, process_channelStatus]
      by_cases hf : f = .channel
      · simp [hf, ih, List.replicate_succ]
      · simp [hf, ih]

theorem newRaidenEvent_paymentReceived (p : PaymentReceivedEvent) :
    SameChannels a (a.newRaidenEvent (.paymentReceived p)) := by
  refine SameChannels.trans (b := { a with eventFilters := a.eventFilters.filter fun f =>
    (EventFilter.process (.paymentReceived p) f).isNone }) ?_ (sameChannels_enqueue ?_)
  · refine ⟨rfl, ?_, rfl, rfl, rfl⟩
    exact List.count_filter rfl
  · intro sc hsc
    obtain ⟨f, -, hf⟩ := List.mem_filterMap.mp hsc
    have hnone := process_paymentReceived p f
    rwa [hf] at hnone

/-- With one token, the raiden listener hands a status on or drops it. -/
theorem serveRaidenListener_channels (h : a.tokens = 1) :
    a.serveRaidenListener.tokens = 1 ∧ a.serveRaidenListener.statuses <+ a.statuses := by
  unfold serveRaidenListener
  split
  · exact ⟨h, List.Sublist.refl _⟩
  next e rest hq =>
    unfold tokens at h
    rw [hq] at h
    cases e with
    | expectInbound initiator identifier =>
      unfold tokens statuses
      rw [hq]
      simpa [addEventFilter, List.filterMap_cons, RaidenListenerEvent.status?] using h
    | channelFilter =>
      unfold tokens statuses
      rw [hq]
      simp only [addEventFilter, List.count_append, List.count_cons_self, List.count_nil] at h ⊢
      refine ⟨by omega, ?_⟩
      simp [List.filterMap_cons, RaidenListenerEvent.status?]
    | paymentReceived p =>
      have hsame := newRaidenEvent_paymentReceived (a := { a with raidenListenerEvents := rest }) p
      rw [hsame.tokens, hsame.statuses]
      unfold tokens statuses
      rw [hq]
      simpa [List.filterMap_cons, RaidenListenerEvent.status?] using h
    | channelStatus raw =>
      obtain ⟨hfilters, hstateChanges⟩ :=
        newRaidenEvent_channelStatus (a := { a with raidenListenerEvents := rest }) raw
      have hevents : (newRaidenEvent { a with raidenListenerEvents := rest }
          (.channelStatus raw)).raidenListenerEvents = rest := rfl
      have htaken : ∀ n, (List.replicate n (StateChange.channelStatus raw)).filterMap
          StateChange.status? = List.replicate n raw := by
        intro n
        induction n with
        | zero => rfl
        | succ n ih =>
          rw [List.replicate_succ, List.replicate_succ, ← ih]
          rfl
      have hle : a.eventFilters.count .channel ≤ 1 := by omega
      unfold tokens statuses
      rw [hfilters, hstateChanges, hevents, hq, List.filterMap_append, htaken]
      constructor
      · simp at h ⊢
        omega
      · rw [List.append_assoc]
        refine List.Sublist.append_left ?_ _
        have hsub : List.replicate (a.eventFilters.count .channel) raw <+ [raw] :=
          (List.replicate_sublist_replicate raw).mpr hle
        exact hsub.append_right _

theorem shows_nil (h : ∀ env, i ≠ .handle env) : shows (a, i) = [] := by
  cases i with
  | handle env => exact absurd rfl (h env)
  | _ => rfl

theorem polled_nil (h : ∀ raw, i ≠ .channelStatus raw) : i.polled = [] := by
  cases i with
  | channelStatus raw => exact absurd rfl (h raw)
  | _ => rfl

theorem channelStatus_channels (raw : String) :
    (a.step C (.channelStatus raw)).tokens = a.tokens ∧
      (a.step C (.channelStatus raw)).statuses = a.statuses ++ [raw] := by
  constructor
  · simp [step, dispatch, tokens, Event.toRaidenListener?]
  · simp [step, dispatch, statuses, Event.toRaidenListener?, RaidenListenerEvent.status?]

/-! ## Runs -/

/-- A step keeps the one token, and takes a status from the front or adds one at the end. -/
theorem channels_step (h : a.tokens = 1) (i : Input) : (a.step C i).tokens = 1 ∧
    shows (a, i) ++ (a.step C i).statuses <+ a.statuses ++ i.polled ∧
    (a.step C i).node.channels = (shows (a, i)).getLast?.getD a.node.channels := by
  by_cases hhandle : ∃ env, i = .handle env
  · obtain ⟨env, rfl⟩ := hhandle
    obtain ⟨htokens, hstatuses, hchannels⟩ := handle_channels a env
    refine ⟨htokens.trans h, ?_, hchannels⟩
    rw [hstatuses, Input.polled, List.append_nil]
    · exact List.Sublist.refl _
    · exact fun raw heq => by cases heq
  have hhandle' : ∀ env, i ≠ .handle env := fun env heq => hhandle ⟨env, heq⟩
  rw [shows_nil hhandle', List.nil_append]
  by_cases hserve : i = .serveRaidenListener
  · subst hserve
    obtain ⟨htokens, hstatuses⟩ := serveRaidenListener_channels h
    refine ⟨htokens, ?_, congrArg Node.channels serveRaidenListener_node.1⟩
    exact hstatuses.trans (List.sublist_append_left _ _)
  by_cases hstatus : ∃ raw, i = .channelStatus raw
  · obtain ⟨raw, rfl⟩ := hstatus
    obtain ⟨htokens, hstatuses⟩ := channelStatus_channels (C := C) (a := a) raw
    exact ⟨htokens.trans h, hstatuses ▸ List.Sublist.refl _, rfl⟩
  have hstatus' : ∀ raw, i ≠ .channelStatus raw := fun raw heq => hstatus ⟨raw, heq⟩
  have hsame : SameChannels a (a.step C i) := step_sameChannels hhandle' hserve hstatus'
  rw [hsame.tokens, hsame.statuses, polled_nil hstatus', List.append_nil]
  exact ⟨h, List.Sublist.refl _, hsame.channels⟩

/-- There is one token in every reachable state: a filter for the next status, or the request for
one, or a status on its way to the node. So at most one waits for the consumer of the node.
Statuses are shown in the order in which they are polled, each at most once, and the API has the
last one that was shown. -/
theorem channels_shown (C : Crypto) (market : TokenPair) (commitmentServiceAddress : Address)
    (is : List Input) :
    let a := run C market commitmentServiceAddress is
    let shown := (LTS.trace (step C) (.init market commitmentServiceAddress) is).flatMap shows
    a.tokens = 1 ∧ shown ++ a.statuses <+ is.flatMap Input.polled ∧
      a.node.channels = shown.getLast?.getD "" := by
  unfold run
  induction is using List.reverseRecOn with
  | nil => exact ⟨rfl, List.Sublist.refl _, rfl⟩
  | append_singleton is i ih =>
    obtain ⟨htokens, hsub, hchannels⟩ := ih
    dsimp only
    rw [LTS.run_concat, LTS.trace_concat, List.flatMap_append, List.flatMap_append,
      List.flatMap_singleton, List.flatMap_singleton]
    generalize (LTS.trace (step C) (.init market commitmentServiceAddress) is).flatMap shows =
      shown at *
    generalize LTS.run (step C) (.init market commitmentServiceAddress) is = a at *
    obtain ⟨htokens', hsub', hchannels'⟩ := channels_step (C := C) htokens i
    refine ⟨htokens', ?_, ?_⟩
    · calc shown ++ shows (a, i) ++ (a.step C i).statuses
          = shown ++ (shows (a, i) ++ (a.step C i).statuses) := List.append_assoc _ _ _
        _ <+ shown ++ (a.statuses ++ i.polled) := hsub'.append_left shown
        _ = shown ++ a.statuses ++ i.polled := (List.append_assoc _ _ _).symm
        _ <+ is.flatMap Input.polled ++ i.polled := hsub.append_right _
    · rw [hchannels', hchannels, List.getLast?_append]
      cases (shows (a, i)).getLast? <;> rfl

end App

end RaidexNode
end Raidex
