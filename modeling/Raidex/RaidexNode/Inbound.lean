import Raidex.Lib.Run
import Raidex.RaidexNode.App

/-!
# Raidex.RaidexNode.Inbound

Whether the expectation of a payment and the payment find each other in the raiden listener.

* `ListenerInput`: an expectation is registered, the poller sees a payment, the listener takes an
  event of its queue.
* `Answered`: after the listener has taken all events, a payment has been handed on once for each
  expectation, and the expectations without a payment are still there.
* `answered_iff`: so it is at every point of a run exactly when no expectation is registered after
  its payment was dispatched.
-/

namespace Raidex
namespace RaidexNode

inductive ListenerInput where
  | expectInbound (initiator : Address) (identifier : Nat)
  | channelFilter
  | payment (p : PaymentReceivedEvent)
  | channelStatus (channelData : String)
  | serve

/-- The payment that a state change is about, if it is one of these. -/
def StateChange.transfer? (initiator : Address) (identifier : Nat) :
    StateChange → Option PaymentReceivedEvent
  | .transferReceived p =>
    if p.initiator = initiator ∧ p.identifier = identifier then some p else none
  | _ => none

namespace App

def listenerStep (a : App) : ListenerInput → App
  | .expectInbound initiator identifier =>
    a.dispatch [.raidenListener (.expectInbound initiator identifier)]
  | .channelFilter => a.dispatch [.raidenListener .channelFilter]
  | .payment p => a.poll p
  | .channelStatus channelData => a.dispatch [.raidenListener (.channelStatus channelData)]
  | .serve => a.serveRaidenListener

def listenerRun (market : TokenPair) (commitmentServiceAddress : Address)
    (is : List ListenerInput) : App :=
  LTS.run listenerStep (.init market commitmentServiceAddress) is

/-- The listener has taken all events of its queue. -/
def drain (a : App) : App := Nat.iterate serveRaidenListener a.raidenListenerEvents.length a

/-- The payments with this initiator and identifier that were handed on to the node. -/
def transfers (a : App) (initiator : Address) (identifier : Nat) : List PaymentReceivedEvent :=
  a.stateChanges.filterMap (StateChange.transfer? initiator identifier)

/-- The expectations that are registered. -/
def expectations (a : App) (initiator : Address) (identifier : Nat) : Nat :=
  a.eventFilters.count (.transferReceived initiator identifier)

end App

/-- The expectations that handlers have registered. -/
def expected (is : List ListenerInput) (initiator : Address) (identifier : Nat) : Nat :=
  is.countP fun i => match i with
    | .expectInbound initiator' identifier' => initiator' = initiator ∧ identifier' = identifier
    | _ => false

/-- The first payment that the poller has seen. -/
def paid (is : List ListenerInput) (initiator : Address) (identifier : Nat) :
    Option PaymentReceivedEvent :=
  is.findSome? fun i => match i with
    | .payment p => if p.initiator = initiator ∧ p.identifier = identifier then some p else none
    | _ => none

/-- Every expectation is answered once, with its payment, or waits for it. -/
def Answered (is : List ListenerInput) (a : App) : Prop :=
  ∀ initiator identifier, match paid is initiator identifier with
    | none => a.drain.expectations initiator identifier = expected is initiator identifier ∧
        a.drain.transfers initiator identifier = []
    | some p => a.drain.expectations initiator identifier = 0 ∧
        a.drain.transfers initiator identifier =
          List.replicate (expected is initiator identifier) p

/-- The payment has not been dispatched when the expectation is. -/
def InTime (a : App) : ListenerInput → Prop
  | .expectInbound initiator identifier => (initiator, identifier) ∉ a.raidenEvents
  | _ => True

instance (a : App) (i : ListenerInput) : Decidable (InTime a i) :=
  match i with
  | .expectInbound .. => inferInstanceAs (Decidable (_ ∉ _))
  | .channelFilter | .payment _ | .channelStatus _ | .serve => .isTrue trivial

/-! ## Draining the queue -/

namespace App

variable {a : App} {e : RaidenListenerEvent} {rest : List RaidenListenerEvent}

/-- `handle_event` of the raiden listener -/
def takeEvent (a : App) (e : RaidenListenerEvent) : App :=
  match e with
  | .expectInbound initiator identifier => a.addEventFilter (.transferReceived initiator identifier)
  | .channelFilter => a.addEventFilter .channel
  | .paymentReceived _ | .channelStatus _ => a.newRaidenEvent e

theorem serve_cons (h : a.raidenListenerEvents = e :: rest) :
    a.serveRaidenListener = { a with raidenListenerEvents := rest }.takeEvent e := by
  unfold serveRaidenListener
  rw [h]
  cases e <;> rfl

theorem serve_nil (h : a.raidenListenerEvents = []) : a.serveRaidenListener = a := by
  unfold serveRaidenListener
  rw [h]

theorem takeEvent_queue (a : App) (e : RaidenListenerEvent) :
    (a.takeEvent e).raidenListenerEvents = a.raidenListenerEvents := by
  cases e <;> rfl

end App

section

variable (initiator : Address) (identifier : Nat)

/-- What an event does to the waiting expectations and to the transfers that were handed on. -/
def tallyEvent (t : Nat × List PaymentReceivedEvent) (e : RaidenListenerEvent) :
    Nat × List PaymentReceivedEvent :=
  match e with
  | .expectInbound initiator' identifier' =>
    if initiator' = initiator ∧ identifier' = identifier then (t.1 + 1, t.2) else t
  | .paymentReceived p =>
    if p.initiator = initiator ∧ p.identifier = identifier then (0, t.2 ++ List.replicate t.1 p)
    else t
  | .channelFilter | .channelStatus _ => t

def App.tally (a : App) : Nat × List PaymentReceivedEvent :=
  (a.expectations initiator identifier, a.transfers initiator identifier)

/-- The tally once the events in the queue are taken. -/
def App.settled (a : App) : Nat × List PaymentReceivedEvent :=
  a.raidenListenerEvents.foldl (tallyEvent initiator identifier) (a.tally initiator identifier)

variable {initiator identifier} {a : App} {e : RaidenListenerEvent}

theorem count_process_none (p : PaymentReceivedEvent) (fs : List EventFilter) :
    (fs.filter fun f => (EventFilter.process (.paymentReceived p) f).isNone).count
      (.transferReceived initiator identifier) =
    if p.initiator = initiator ∧ p.identifier = identifier then 0
    else fs.count (.transferReceived initiator identifier) := by
  have hproc : (EventFilter.process (.paymentReceived p)
      (.transferReceived initiator identifier)).isNone =
      !decide (p.initiator = initiator ∧ p.identifier = identifier) := by
    simp only [EventFilter.process, Bool.and_eq_true, decide_eq_true_iff]
    split <;> simp [*]
  split
  next h =>
    refine List.count_eq_zero.mpr ?_
    intro hmem
    have hkept := (List.mem_filter.mp hmem).2
    rw [hproc, decide_eq_true h] at hkept
    cases hkept
  next h => exact List.count_filter (by rw [hproc, decide_eq_false h]; rfl)

theorem transfers_process (p : PaymentReceivedEvent) (fs : List EventFilter) :
    (fs.filterMap (EventFilter.process (.paymentReceived p))).filterMap
      (StateChange.transfer? initiator identifier) =
    if p.initiator = initiator ∧ p.identifier = identifier then
      List.replicate (fs.count (.transferReceived initiator identifier)) p
    else [] := by
  induction fs with
  | nil => split <;> rfl
  | cons f fs ih =>
    cases f with
    | channel =>
      have hnone : EventFilter.process (.paymentReceived p) .channel = none := rfl
      have hne : EventFilter.channel ≠ .transferReceived initiator identifier := by simp
      rw [List.filterMap_cons_none hnone, ih, List.count_cons_of_ne hne]
    | transferReceived initiator' identifier' =>
      by_cases hp : p.initiator = initiator' ∧ p.identifier = identifier'
      · obtain ⟨rfl, rfl⟩ := hp
        have hsome : EventFilter.process (.paymentReceived p)
            (.transferReceived p.initiator p.identifier) = some (.transferReceived p) := by
          simp [EventFilter.process]
        rw [List.filterMap_cons_some hsome]
        by_cases h : p.initiator = initiator ∧ p.identifier = identifier
        · have hself : StateChange.transfer? initiator identifier (.transferReceived p) = some p :=
            if_pos h
          rw [List.filterMap_cons_some hself, ih, if_pos h, if_pos h, h.1, h.2,
            List.count_cons_self, List.replicate_succ]
        · have hother : StateChange.transfer? initiator identifier (.transferReceived p) = none :=
            if_neg h
          rw [List.filterMap_cons_none hother, ih, if_neg h, if_neg h]
      · have hnone : EventFilter.process (.paymentReceived p)
            (.transferReceived initiator' identifier') = none := by
          simpa [EventFilter.process] using hp
        rw [List.filterMap_cons_none hnone, ih]
        by_cases h : p.initiator = initiator ∧ p.identifier = identifier
        · have hne : EventFilter.transferReceived initiator' identifier' ≠
              .transferReceived initiator identifier := by
            intro heq
            cases heq
            exact hp h
          rw [if_pos h, if_pos h, List.count_cons_of_ne hne]
        · rw [if_neg h, if_neg h]

/-- The tally after an event. -/
theorem tally_takeEvent : (a.takeEvent e).tally initiator identifier =
    tallyEvent initiator identifier (a.tally initiator identifier) e := by
  cases e with
  | expectInbound initiator' identifier' =>
    unfold App.takeEvent App.tally App.expectations App.transfers tallyEvent App.addEventFilter
    simp only [List.count_append, List.count_singleton, beq_iff_eq,
      EventFilter.transferReceived.injEq]
    split <;> rfl
  | channelFilter =>
    unfold App.takeEvent App.tally App.expectations App.transfers tallyEvent App.addEventFilter
    simp [List.count_append]
  | paymentReceived p =>
    unfold App.takeEvent App.tally App.expectations App.transfers tallyEvent App.newRaidenEvent
      App.enqueue
    simp only [List.filterMap_append, count_process_none, transfers_process]
    split
    · rfl
    · rw [List.append_nil]
  | channelStatus channelData =>
    have hcount : (a.eventFilters.filter fun f =>
        (EventFilter.process (.channelStatus channelData) f).isNone).count
          (.transferReceived initiator identifier) =
        a.eventFilters.count (.transferReceived initiator identifier) := List.count_filter rfl
    have hnone (fs : List EventFilter) :
        (fs.filterMap (EventFilter.process (.channelStatus channelData))).filterMap
          (StateChange.transfer? initiator identifier) = [] := by
      rw [List.filterMap_eq_nil_iff]
      intro sc hsc
      obtain ⟨f, -, hf⟩ := List.mem_filterMap.mp hsc
      cases f with
      | channel => cases hf; rfl
      | transferReceived _ _ => cases hf
    unfold App.takeEvent App.tally App.expectations App.transfers tallyEvent App.newRaidenEvent
      App.enqueue
    simp only [List.filterMap_append, hcount, hnone, List.append_nil]

theorem iterate_serve (queue : List RaidenListenerEvent) (h : a.raidenListenerEvents = queue) :
    (Nat.iterate App.serveRaidenListener queue.length a).tally initiator identifier =
      queue.foldl (tallyEvent initiator identifier) (a.tally initiator identifier) := by
  induction queue generalizing a with
  | nil => rfl
  | cons e queue ih =>
    have hserve := App.serve_cons h
    have hqueue : a.serveRaidenListener.raidenListenerEvents = queue := by
      rw [hserve, App.takeEvent_queue]
    have htally : a.serveRaidenListener.tally initiator identifier =
        tallyEvent initiator identifier (a.tally initiator identifier) e := by
      rw [hserve, tally_takeEvent]; rfl
    rw [List.length_cons, Function.iterate_succ_apply, ih hqueue, htally, List.foldl_cons]

theorem drain_tally (a : App) : a.drain.tally initiator identifier =
    a.settled initiator identifier := iterate_serve a.raidenListenerEvents rfl

/-! ## Steps -/

theorem settled_dispatch (a : App) (e : RaidenListenerEvent) :
    (a.dispatch [.raidenListener e]).settled initiator identifier =
      tallyEvent initiator identifier (a.settled initiator identifier) e := by
  unfold App.settled
  have hqueue : (a.dispatch [.raidenListener e]).raidenListenerEvents =
      a.raidenListenerEvents ++ [e] := rfl
  rw [hqueue, List.foldl_append]
  rfl

theorem settled_serve (a : App) : a.serveRaidenListener.settled initiator identifier =
    a.settled initiator identifier := by
  cases hq : a.raidenListenerEvents with
  | nil => rw [App.serve_nil hq]
  | cons e rest =>
    unfold App.settled
    rw [App.serve_cons hq, App.takeEvent_queue, tally_takeEvent, hq]
    rfl

end

section

variable {initiator : Address} {identifier : Nat} {a : App} {is : List ListenerInput}
  {i : ListenerInput}

/-- The tally after a step. The poller dispatches a payment it has not seen. -/
theorem settled_step (a : App) (i : ListenerInput) :
    (a.listenerStep i).settled initiator identifier = match i with
      | .expectInbound initiator' identifier' =>
        tallyEvent initiator identifier (a.settled initiator identifier)
          (.expectInbound initiator' identifier')
      | .payment p =>
        if (p.initiator, p.identifier) ∈ a.raidenEvents then a.settled initiator identifier
        else tallyEvent initiator identifier (a.settled initiator identifier) (.paymentReceived p)
      | .channelFilter | .channelStatus _ | .serve => a.settled initiator identifier := by
  cases i with
  | expectInbound initiator' identifier' => exact settled_dispatch a _
  | channelFilter => exact settled_dispatch a .channelFilter
  | channelStatus channelData => exact settled_dispatch a (.channelStatus channelData)
  | serve => exact settled_serve a
  | payment p =>
    simp only [App.listenerStep, App.poll]
    split
    · rfl
    · exact settled_dispatch _ (.paymentReceived p)

theorem raidenEvents_step (a : App) (i : ListenerInput) :
    (a.listenerStep i).raidenEvents = match i with
      | .payment p => if (p.initiator, p.identifier) ∈ a.raidenEvents then a.raidenEvents
          else a.raidenEvents ++ [(p.initiator, p.identifier)]
      | _ => a.raidenEvents := by
  cases i with
  | expectInbound | channelFilter | channelStatus => rfl
  | payment p => simp only [App.listenerStep, App.poll]; split <;> rfl
  | serve =>
    cases hq : a.raidenListenerEvents with
    | nil => simp only [App.listenerStep, App.serve_nil hq]
    | cons e rest =>
      simp only [App.listenerStep, App.serve_cons hq]
      cases e <;> rfl

/-- The poller remembers the payments it has seen. -/
def Seen (is : List ListenerInput) (a : App) : Prop :=
  ∀ initiator identifier, (initiator, identifier) ∈ a.raidenEvents ↔
    (paid is initiator identifier).isSome = true

theorem paid_concat (is : List ListenerInput) (i : ListenerInput) :
    paid (is ++ [i]) initiator identifier = (paid is initiator identifier).or
      (match i with
        | .payment p => if p.initiator = initiator ∧ p.identifier = identifier then some p else none
        | _ => none) := by
  unfold paid
  rw [List.findSome?_append]
  cases i with
  | payment p => simp only [List.findSome?_cons, List.findSome?_nil]; split <;> simp [*]
  | _ => rfl

theorem expected_concat (is : List ListenerInput) (i : ListenerInput) :
    expected (is ++ [i]) initiator identifier = expected is initiator identifier +
      (match i with
        | .expectInbound initiator' identifier' =>
          if initiator' = initiator ∧ identifier' = identifier then 1 else 0
        | _ => 0) := by
  unfold expected
  rw [List.countP_append]
  cases i with
  | expectInbound initiator' identifier' => simp [List.countP_cons]
  | _ => rfl

theorem seen_step (h : Seen is a) (i : ListenerInput) : Seen (is ++ [i]) (a.listenerStep i) := by
  intro initiator identifier
  rw [raidenEvents_step, paid_concat, Option.isSome_or, Bool.or_eq_true, ← h]
  cases i with
  | payment p =>
    by_cases hp : p.initiator = initiator ∧ p.identifier = identifier
    · obtain ⟨rfl, rfl⟩ := hp
      simp only [and_self, if_true, Option.isSome_some, or_true, iff_true]
      split
      · assumption
      · exact List.mem_append_right _ (List.mem_singleton_self _)
    · have hne : (initiator, identifier) ≠ (p.initiator, p.identifier) := by
        intro heq
        cases heq
        exact hp ⟨rfl, rfl⟩
      simp only [if_neg hp, Option.isSome_none, Bool.false_eq_true, or_false]
      split
      · rfl
      · rw [List.mem_append, List.mem_singleton, or_iff_left hne]
  | _ => simp

/-- What `Answered` says of the tally. -/
theorem answered_iff_settled : Answered is a ↔ ∀ initiator identifier,
    a.settled initiator identifier = match paid is initiator identifier with
      | none => (expected is initiator identifier, [])
      | some p => (0, List.replicate (expected is initiator identifier) p) := by
  refine forall₂_congr ?_
  intro initiator identifier
  rw [← drain_tally, App.tally]
  split <;> simp only [Prod.mk.injEq]

/-- A step that is in time keeps every expectation answered. -/
theorem answered_step (hseen : Seen is a) (h : Answered is a) (hi : InTime a i) :
    Answered (is ++ [i]) (a.listenerStep i) := by
  rw [answered_iff_settled] at h ⊢
  intro initiator identifier
  have ht := h initiator identifier
  rw [settled_step, paid_concat, expected_concat]
  cases i with
  | expectInbound initiator' identifier' =>
    simp only [Option.or_none]
    by_cases hp : initiator' = initiator ∧ identifier' = identifier
    · obtain ⟨rfl, rfl⟩ := hp
      have hunpaid : paid is initiator' identifier' = none := by
        have hnot := mt (hseen initiator' identifier').mpr hi
        simpa using hnot
      rw [hunpaid] at ht ⊢
      simp only [tallyEvent, and_self, if_true, ht]
    · simp only [tallyEvent, if_neg hp, Nat.add_zero]
      exact ht
  | payment p =>
    simp only [Nat.add_zero]
    by_cases hp : p.initiator = initiator ∧ p.identifier = identifier
    · obtain ⟨rfl, rfl⟩ := hp
      have hiff := hseen p.initiator p.identifier
      cases hpaid : paid is p.initiator p.identifier with
      | none =>
        rw [hpaid] at ht hiff
        rw [if_neg (by rw [hiff]; exact Bool.false_ne_true), ht]
        simp [tallyEvent]
      | some p' =>
        rw [hpaid] at ht hiff
        rw [if_pos (by rw [hiff]; rfl), ht]
        rfl
    · simp only [if_neg hp, Option.or_none]
      split
      · exact ht
      · simp only [tallyEvent, if_neg hp]
        exact ht
  | channelFilter | channelStatus _ | serve => simpa using ht

/-- An expectation that comes after its payment is never answered. -/
theorem not_answered_step (hseen : Seen is a) (h : Answered is a) (hi : ¬ InTime a i) :
    ¬ Answered (is ++ [i]) (a.listenerStep i) := by
  cases i with
  | expectInbound initiator identifier =>
    have hmem : (initiator, identifier) ∈ a.raidenEvents := not_not.mp hi
    obtain ⟨p, hp⟩ := Option.isSome_iff_exists.mp ((hseen initiator identifier).mp hmem)
    rw [answered_iff_settled] at h ⊢
    intro hnew
    have ht := h initiator identifier
    have ht' := hnew initiator identifier
    rw [settled_step, paid_concat, expected_concat, hp] at ht'
    rw [hp] at ht
    simp only [tallyEvent, and_self, if_true, ht, Option.or_none] at ht'
    cases ht'
  | channelFilter | payment _ | channelStatus _ | serve => exact (hi trivial).elim

end

theorem seen_run (market : TokenPair) (commitmentServiceAddress : Address)
    (is : List ListenerInput) : Seen is (App.listenerRun market commitmentServiceAddress is) := by
  refine LTS.run_invariant App.listenerStep Seen ?_ (fun _ _ i h => seen_step h i) is
  intro initiator identifier
  simp [App.init, paid]

/-- Every expectation is answered once with its payment, and waits for it until then, exactly when
none is registered after its payment was dispatched. -/
theorem answered_iff (market : TokenPair) (commitmentServiceAddress : Address)
    (is : List ListenerInput) :
    (∀ pre, pre <+: is → Answered pre (App.listenerRun market commitmentServiceAddress pre)) ↔
      LTS.AllSteps App.listenerStep InTime (.init market commitmentServiceAddress) is := by
  rw [← LTS.prefixes_iff_allSteps (I := fun _ => True)
    (P := fun pre a => Answered pre a ∧ Seen pre a) trivial (fun _ _ _ => trivial) ?_
    (fun _ _ i _ h hi => ⟨answered_step h.2 h.1 hi, seen_step h.2 i⟩)
    (fun _ _ _ _ h hi hnew => not_answered_step h.2 h.1 hi hnew.1) is]
  · exact forall₂_congr fun pre _ =>
      (and_iff_left (seen_run market commitmentServiceAddress pre)).symm
  · refine ⟨?_, seen_run market commitmentServiceAddress []⟩
    rw [answered_iff_settled]
    intro initiator identifier
    rfl

/-- A payment of address `4` that comes before the expectation is never handed on. -/
theorem early_payment_missed : ¬ Answered
    [.payment { initiator := 4, amount := .int 5, identifier := 7 }, .serve,
     .expectInbound 4 7, .serve]
    (App.listenerRun { baseToken := 1, quoteToken := 2 } 9
      [.payment { initiator := 4, amount := .int 5, identifier := 7 }, .serve, .expectInbound 4 7,
       .serve]) := by
  intro h
  have hnone := (h 4 7).2
  revert hnone
  decide +kernel

end RaidexNode
end Raidex
