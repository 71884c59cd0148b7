import Raidex.RaidexNode.BookIndex
import Raidex.RaidexNode.Trades

/-!
# Raidex.RaidexNode.ListenerTasks

The tasks that hand an offer on: from the book to the pending offers, and from these to the trades.

* `offerTaken`, `swapCompleted`: what the tasks do with the data of their listeners.
* `HandsOn`: a step hands its offer on, and does not raise half way.
* `handed_on_iff`: every step of a run hands its offer on exactly when no swap of a pending offer
  is reported and every offer that is taken is in the book once.
-/

namespace Raidex
namespace RaidexNode

structure ListenerState where
  offerBook : OfferBook
  trades : TradesView

def ListenerState.empty : ListenerState where
  offerBook := .empty
  trades := .empty

abbrev ListenerM := EStateM PyError ListenerState

inductive ListenerData where
  | offer (entry : OfferBookEntry)
  | taken (offerId : Nat)
  | completed (offerId : Nat) (timestamp : Int)

namespace ListenerTask

/-- The entry of an `OfferListener` is inserted by the handler of the state change. -/
def offerPublished (entry : OfferBookEntry) : ListenerM Unit := do
  let book ← MonadExcept.ofExcept ((← get).offerBook.insertOffer entry)
  modify fun s => { s with offerBook := book }

/-- `OfferTakenTask.process`. The pending offer is the entry of the book. -/
def offerTaken (offerId : Nat) : ListenerM Unit := do
  if (← get).offerBook.contains offerId then
    match (← get).offerBook.getOfferById offerId with
    | none => throw .attributeError
    | some entry =>
      modify fun s => { s with trades := s.trades.addPending (.entry entry) }
      let book ← MonadExcept.ofExcept ((← get).offerBook.removeOffer offerId)
      modify fun s => { s with offerBook := book }

/-- `SwapCompletedTask.process` -/
def swapCompleted (offerId : Nat) (timestamp : Int) : ListenerM Unit := fun s =>
  match (TradesView.reportCompleted offerId timestamp).run s.trades with
  | .ok _ trades => .ok () { s with trades := trades }
  | .error e trades => .error e { s with trades := trades }

def process : ListenerData → ListenerM Unit
  | .offer entry => offerPublished entry
  | .taken offerId => offerTaken offerId
  | .completed offerId timestamp => swapCompleted offerId timestamp

end ListenerTask

namespace ListenerState

open ListenerTask

/-- A task that raises leaves behind what it has done. -/
def step (s : ListenerState) (data : ListenerData) : ListenerState := ((process data).run s).state

def run (datas : List ListenerData) : ListenerState := LTS.run step .empty datas

/-! ## What a step is to do -/

/-- The offer has left the book and waits for its completion. -/
def MovedToPending (s s' : ListenerState) (offerId : Nat) : Prop :=
  (∀ e ∈ s'.offerBook.values, e.offerId ≠ offerId) ∧
    ∃ e ∈ s.offerBook.values, e.offerId = offerId ∧
      s'.trades.getPendingById offerId = some (.entry e)

/-- The offer is a trade and does not wait any more. -/
def MovedToTrades (s' : ListenerState) (offerId : Nat) (timestamp : Int) : Prop :=
  s'.trades.getPendingById offerId = none ∧
    ∃ t ∈ s'.trades.values, s'.trades.getTradeById offerId = some t ∧
      t.offer.offerId = offerId ∧ t.timestamp = timestamp

/-- A step that raises changes nothing, an offer of the book that is taken becomes a pending one,
and a pending offer that is completed becomes a trade. -/
def HandsOn (s : ListenerState) (data : ListenerData) : Prop :=
  (¬ EStateM.Returns (process data) s → s.step data = s) ∧
    match data with
    | .offer _ => True
    | .taken offerId =>
      (∃ e ∈ s.offerBook.values, e.offerId = offerId) → MovedToPending s (s.step data) offerId
    | .completed offerId timestamp =>
      if s.trades.getPendingById offerId = none then s.step data = s
      else MovedToTrades (s.step data) offerId timestamp

/-- The entries with the id are the one that the book finds by it. -/
def ListedOnce (s : ListenerState) (offerId : Nat) : Prop :=
  ∀ e ∈ s.offerBook.values, e.offerId = offerId → s.offerBook.getOfferById offerId = some e

/-- No pending offer is completed, and an offer that is taken is in the book once. -/
def Admits (s : ListenerState) : ListenerData → Prop
  | .offer _ => True
  | .taken offerId => s.ListedOnce offerId
  | .completed offerId _ => s.trades.getPendingById offerId = none

/-! ## Steps -/

/-- The book finds entries that it holds, and what waits is an entry of the book. -/
structure Inv (s : ListenerState) : Prop where
  held : s.offerBook.Held
  entries : ∀ id p, s.trades.getPendingById id = some p → ∃ e, p = .entry e

variable {s : ListenerState} {entry : OfferBookEntry} {offerId : Nat} {timestamp : Int}

theorem offerPublished_run (s : ListenerState) (entry : OfferBookEntry) :
    (offerPublished entry).run s =
      match s.offerBook.insertOffer entry with
      | .ok book => .ok () { s with offerBook := book }
      | .error e => .error e s := by
  rw [offerPublished, EStateM.run_bind, EStateM.run_get]
  simp only
  cases s.offerBook.insertOffer entry <;> rfl

/-- An id that the book does not find is not taken from it. -/
theorem offerTaken_none (h : s.offerBook.getOfferById offerId = none) :
    (offerTaken offerId).run s = .ok () s := by
  have hnot : s.offerBook.contains offerId = false := by
    rw [Bool.eq_false_iff, ne_eq, OfferBook.contains_iff, h]
    rintro ⟨e, ⟨⟩⟩
  rw [offerTaken, EStateM.run_bind, EStateM.run_get]
  simp only [hnot]
  rfl

/-- The entry that the book finds is removed from it, and waits for its completion. -/
theorem offerTaken_some (h : s.offerBook.Held)
    (hget : s.offerBook.getOfferById offerId = some entry) :
    ∃ book, (offerTaken offerId).run s =
        .ok () { offerBook := book, trades := s.trades.addPending (.entry entry) } ∧
      book.Held ∧ ∀ e, e ∈ book.values ↔ e ∈ s.offerBook.values ∧ e ≠ entry := by
  obtain ⟨book, hrem, hheld, hvalues⟩ := h.removeOffer hget
  refine ⟨book, ?_, hheld, hvalues⟩
  have hin : s.offerBook.contains offerId = true := OfferBook.contains_iff.mpr ⟨entry, hget⟩
  rw [offerTaken, EStateM.run_bind, EStateM.run_get]
  simp only [hin, if_true]
  rw [EStateM.run_bind, EStateM.run_get]
  simp only [hget]
  rw [EStateM.run_bind, EStateM.run_modify]
  simp only
  rw [EStateM.run_bind, EStateM.run_get]
  simp only [hrem]
  rfl

theorem swapCompleted_run (s : ListenerState) (offerId : Nat) (timestamp : Int) :
    (swapCompleted offerId timestamp).run s =
      match (TradesView.reportCompleted offerId timestamp).run s.trades with
      | .ok _ trades => .ok () { s with trades := trades }
      | .error e trades => .error e { s with trades := trades } := rfl

theorem getPendingById_addPending {v : TradesView} {p : PendingOffer} {id : Nat} :
    (v.addPending p).getPendingById id =
      if id = p.offerId then some p else v.getPendingById id := by
  unfold TradesView.addPending TradesView.getPendingById
  split
  next h => rw [h, AList.lookup_insert]
  next h => rw [AList.lookup_insert_ne h]

theorem getPendingById_removePending {v : TradesView} {id : Nat} :
    (v.removePending offerId).getPendingById id =
      if id = offerId then none else v.getPendingById id := by
  unfold TradesView.removePending TradesView.getPendingById
  split
  next h => rw [h, AList.lookup_erase]
  next h => rw [AList.lookup_erase_ne h]

/-- The report of a pending offer deletes it and raises. -/
theorem swapCompleted_pending (h : s.Inv) {p : PendingOffer}
    (hp : s.trades.getPendingById offerId = some p) :
    (swapCompleted offerId timestamp).run s =
      .error .assertionError { s with trades := s.trades.removePending offerId } := by
  obtain ⟨e, rfl⟩ := h.entries offerId p hp
  rw [swapCompleted_run, TradesView.reportCompleted_run, hp]

theorem swapCompleted_none (hp : s.trades.getPendingById offerId = none) :
    (swapCompleted offerId timestamp).run s = .ok () s := by
  rw [swapCompleted_run, TradesView.reportCompleted_run, hp]

theorem inv_step (h : s.Inv) (data : ListenerData) : (s.step data).Inv := by
  unfold step process
  cases data with
  | offer entry =>
    simp only [offerPublished_run]
    cases hins : s.offerBook.insertOffer entry with
    | ok book => exact ⟨h.held.insertOffer hins, h.entries⟩
    | error e => exact h
  | taken offerId =>
    simp only
    cases hget : s.offerBook.getOfferById offerId with
    | none => rw [offerTaken_none hget]; exact h
    | some entry =>
      obtain ⟨book, hrun, hheld, -⟩ := offerTaken_some h.held hget
      rw [hrun]
      refine ⟨hheld, ?_⟩
      intro id p hp
      rw [EStateM.Result.state_ok, getPendingById_addPending] at hp
      split at hp
      · exact ⟨entry, (Option.some.inj hp).symm⟩
      · exact h.entries id p hp
  | completed offerId timestamp =>
    simp only
    cases hp : s.trades.getPendingById offerId with
    | none => rw [swapCompleted_none hp]; exact h
    | some p =>
      rw [swapCompleted_pending h hp]
      refine ⟨h.held, ?_⟩
      intro id p hp
      rw [EStateM.Result.state_error, getPendingById_removePending] at hp
      split at hp
      · cases hp
      · exact h.entries id p hp

/-! ## The steps that hand on -/

theorem offer_handsOn : s.HandsOn (.offer entry) := by
  refine ⟨fun hraise => ?_, trivial⟩
  unfold step process
  rw [process, EStateM.Returns, offerPublished_run] at hraise
  rw [offerPublished_run]
  cases hins : s.offerBook.insertOffer entry with
  | ok book => rw [hins] at hraise; exact absurd rfl hraise
  | error e => rfl

/-- An offer that is taken leaves the book when it is in it once. -/
theorem taken_handsOn (h : s.Inv) : s.HandsOn (.taken offerId) ↔ s.ListedOnce offerId := by
  have hid {e : OfferBookEntry} (hget : s.offerBook.getOfferById offerId = some e) :
      e.offerId = offerId := OfferBook.getOfferById_offerId hget
  unfold HandsOn step process
  simp only
  cases hget : s.offerBook.getOfferById offerId with
  | none =>
    rw [offerTaken_none hget, EStateM.Result.state_ok, and_iff_right (fun _ => rfl)]
    constructor
    · intro hmove e he hid
      obtain ⟨hgone, -⟩ := hmove ⟨e, he, hid⟩
      exact absurd hid (hgone e he)
    · rintro hlisted ⟨e, he, hid⟩
      cases hget.symm.trans (hlisted e he hid)
  | some entry =>
    obtain ⟨book, hrun, -, hvalues⟩ := offerTaken_some h.held hget
    have hret : EStateM.Returns (offerTaken offerId) s := EStateM.returns_of_ok hrun
    rw [hrun, EStateM.Result.state_ok, and_iff_right (fun hraise => absurd hret hraise)]
    have hentry := h.held.getOfferById hget
    constructor
    · intro hmove e he hid'
      obtain ⟨hgone, -⟩ := hmove ⟨entry, hentry, hid hget⟩
      by_contra hne
      refine hgone e ((hvalues e).mpr ⟨he, ?_⟩) hid'
      rintro rfl
      exact hne hget
    · intro hlisted _
      refine ⟨?_, entry, hentry, hid hget, ?_⟩
      · intro e he hid'
        obtain ⟨he, hne⟩ := (hvalues e).mp he
        exact hne (Option.some.inj ((hlisted e he hid').symm.trans hget))
      · rw [getPendingById_addPending, if_pos]
        exact (hid hget).symm

/-- A report hands an offer on only where there is none. -/
theorem completed_handsOn (h : s.Inv) :
    s.HandsOn (.completed offerId timestamp) ↔ s.trades.getPendingById offerId = none := by
  unfold HandsOn step process
  simp only
  cases hp : s.trades.getPendingById offerId with
  | none =>
    rw [swapCompleted_none hp]
    exact iff_of_true ⟨fun _ => rfl, rfl⟩ rfl
  | some p =>
    refine iff_of_false ?_ (Option.some_ne_none p)
    rintro ⟨hraise, -⟩
    rw [EStateM.Returns, swapCompleted_pending h hp] at hraise
    have hsame := congrArg (fun s => s.trades.getPendingById offerId) (hraise Bool.false_ne_true)
    simp only [EStateM.Result.state_error, getPendingById_removePending, if_true, hp] at hsame
    cases hsame

theorem handsOn_iff (h : s.Inv) (data : ListenerData) : s.HandsOn data ↔ s.Admits data := by
  cases data with
  | offer entry => exact iff_of_true offer_handsOn trivial
  | taken offerId => exact taken_handsOn h
  | completed offerId timestamp => exact completed_handsOn h

/-- Every step of a run hands its offer on exactly when no pending offer is reported as completed,
and every offer that is taken is in the book once. -/
theorem handed_on_iff (datas : List ListenerData) :
    LTS.AllSteps step HandsOn .empty datas ↔ LTS.AllSteps step Admits .empty datas :=
  LTS.allSteps_congr (I := Inv) ⟨OfferBook.held_empty, fun _ _ h => by cases h⟩
    (fun _ data h => inv_step h data) (fun _ data h => handsOn_iff h data) datas

/-- An offer is published, taken and completed: it waits no more, and is no trade. -/
theorem completed_offer_lost :
    ¬ LTS.AllSteps step HandsOn .empty
      [.offer (OfferBook.ghost 20), .taken 7, .completed 7 50] ∧
    (run [.offer (OfferBook.ghost 20), .taken 7]).trades.pendingOfferById.keys = [7] ∧
    (run [.offer (OfferBook.ghost 20), .taken 7, .completed 7 50]).offerBook.contains 7 = false ∧
    (run [.offer (OfferBook.ghost 20), .taken 7, .completed 7 50]).trades.pendingOfferById.keys =
      [] ∧
    (run [.offer (OfferBook.ghost 20), .taken 7, .completed 7 50]).trades.values = [] := by
  refine ⟨fun h => ?_, by decide +kernel, by decide +kernel, by decide +kernel, by decide +kernel⟩
  obtain ⟨hraise, -⟩ := h (run [.offer (OfferBook.ghost 20), .taken 7], .completed 7 50)
    (List.mem_cons_of_mem _ (List.mem_cons_of_mem _ List.mem_cons_self))
  have hkeys := congrArg (fun s => s.trades.pendingOfferById.keys) (hraise (by decide +kernel))
  revert hkeys
  decide +kernel

end ListenerState

end RaidexNode
end Raidex
