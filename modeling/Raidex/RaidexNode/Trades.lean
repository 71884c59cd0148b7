import Raidex.RaidexNode.Pricing

/-!
# Raidex.RaidexNode.Trades

The trades of a node: the offers that wait for their completion, and the trades that they become.

* `TradesView`: the trades are kept under their own timestamps and offer ids, in this order.
* `reportCompleted`: it takes the offer from the pending ones before it looks at its class.
* `trades_range`: a range query gives the completed trades of the range, of those with the same
  timestamp and id the last.
-/

namespace Raidex
namespace RaidexNode

/-- What `add_pending` is given: an offer, or an entry of the offer book. -/
inductive PendingOffer where
  | offer (o : BasicOffer Nat)
  | entry (e : OfferBookEntry)

def PendingOffer.offerId : PendingOffer → Nat
  | offer o => o.offerId
  | entry e => e.offerId

structure Trade where
  offer : BasicOffer Nat
  timestamp : Int
  deriving DecidableEq

abbrev TradeKey := Int × Nat

def Trade.key (t : Trade) : TradeKey := (t.timestamp, t.offer.offerId)

structure TradesView where
  pendingOfferById : Dict Nat PendingOffer
  tradeById : Dict Nat Trade
  entries : List (TradeKey × Trade)
  sorted : SortedDict.Sorted Pricing.keyLt entries
  keyed : ∀ x ∈ entries, x.1 = x.2.key

namespace TradesView

def empty : TradesView where
  pendingOfferById := ∅
  tradeById := ∅
  entries := []
  sorted := .nil
  keyed _ h := absurd h List.not_mem_nil

def addPending (v : TradesView) (o : PendingOffer) : TradesView :=
  { v with pendingOfferById := v.pendingOfferById.insert o.offerId o }

/-- `del pending_offer_by_id[offer_id]` -/
def removePending (v : TradesView) (offerId : Nat) : TradesView :=
  { v with pendingOfferById := v.pendingOfferById.erase offerId }

/-- The trade is kept twice: under its timestamp and id, and under its id. -/
def addTrade (v : TradesView) (t : Trade) : TradesView where
  pendingOfferById := v.pendingOfferById
  tradeById := v.tradeById.insert t.offer.offerId t
  entries := SortedDict.set Pricing.keyLt t.key t v.entries
  sorted := v.sorted.set (fun _ _ _ => Pricing.keyLt_trans) Pricing.keyLt_total
  keyed x hx := by
    obtain ⟨k, t'⟩ := x
    rcases SortedDict.mem_set.mp hx with ⟨rfl, rfl⟩ | ⟨-, hx⟩
    · rfl
    · exact v.keyed _ hx

/-- `report_completed`: `none` where the source returns `False`. The offer has been deleted when the
assertion on its class fails. -/
def reportCompleted (offerId : Nat) (completedTimestamp : Int) :
    EStateM PyError TradesView (Option Nat) := do
  match (← get).pendingOfferById.lookup offerId with
  | none => return none
  | some pending =>
    modify fun v => v.removePending offerId
    match pending with
    | .entry _ => throw .assertionError
    | .offer o =>
      modify fun v => v.addTrade { offer := o, timestamp := completedTimestamp }
      return some o.offerId

def getTradeById (v : TradesView) (offerId : Nat) : Option Trade := v.tradeById.lookup offerId

def getPendingById (v : TradesView) (offerId : Nat) : Option PendingOffer :=
  v.pendingOfferById.lookup offerId

/-- All trades, in the order of their timestamps and ids. -/
def values (v : TradesView) : List Trade := v.entries.map Prod.snd

/-- A range of the trades: from the first timestamp on and before the second. The shortcut of the
source for two missing bounds compares tuples by `is`, and is never taken. -/
def trades (v : TradesView) (fromTimestamp toTimestamp : Option Int) : List Trade :=
  (SortedDict.irange Pricing.keyLt (fromTimestamp.map (·, 0)) (toTimestamp.map (·, 0))
    v.entries).map Prod.snd

end TradesView

/-! ## Range queries -/

/-- The timestamp is within the bounds. -/
def InRange (fromTimestamp toTimestamp : Option Int) (t : Int) : Prop :=
  (∀ a ∈ fromTimestamp, a ≤ t) ∧ ∀ b ∈ toTimestamp, t < b

instance (fromTimestamp toTimestamp : Option Int) (t : Int) :
    Decidable (InRange fromTimestamp toTimestamp t) :=
  inferInstanceAs (Decidable ((∀ a ∈ fromTimestamp, a ≤ t) ∧ ∀ b ∈ toTimestamp, t < b))

namespace TradesView

variable {v : TradesView} {t : Trade} {fromTimestamp toTimestamp : Option Int}

theorem keyLt_bound (k : TradeKey) (a : Int) : Pricing.keyLt k (a, 0) = decide (k.1 < a) := by
  simp [Pricing.keyLt]

theorem mem_trades : t ∈ v.trades fromTimestamp toTimestamp ↔
    (t.key, t) ∈ v.entries ∧ InRange fromTimestamp toTimestamp t.timestamp := by
  unfold trades InRange
  rw [List.mem_map]
  constructor
  · rintro ⟨⟨k, t⟩, hx, rfl⟩
    obtain ⟨hx, hmin, hmax⟩ := SortedDict.mem_irange.mp hx
    obtain rfl : k = t.key := v.keyed _ hx
    refine ⟨hx, ?_, ?_⟩
    · intro a ha
      have hlt := hmin (a, 0) (Option.mem_map_of_mem _ ha)
      rw [keyLt_bound, decide_eq_false_iff_not] at hlt
      exact not_lt.mp hlt
    · intro b hb
      have hlt := hmax (b, 0) (Option.mem_map_of_mem _ hb)
      rwa [keyLt_bound, decide_eq_true_eq] at hlt
  · rintro ⟨hx, hmin, hmax⟩
    refine ⟨_, SortedDict.mem_irange.mpr ⟨hx, ?_, ?_⟩, rfl⟩
    · intro _ hk
      obtain ⟨a, ha, rfl⟩ := Option.mem_map.mp hk
      rw [keyLt_bound, decide_eq_false_iff_not]
      exact not_lt.mpr (hmin a ha)
    · intro _ hk
      obtain ⟨b, hb, rfl⟩ := Option.mem_map.mp hk
      rw [keyLt_bound, decide_eq_true_eq]
      exact hmax b hb

/-- Without bounds the range has all trades. -/
theorem trades_none : v.trades none none = v.values := by
  refine congrArg (List.map Prod.snd) (List.filter_eq_self.mpr ?_)
  intro _ _
  rfl

theorem mem_values : t ∈ v.values ↔ (t.key, t) ∈ v.entries := by
  rw [← trades_none, mem_trades]
  exact and_iff_left ⟨nofun, nofun⟩

/-- A range has trades of the view only. -/
theorem trades_subset : v.trades fromTimestamp toTimestamp ⊆ v.values := fun _ ht =>
  mem_values.mpr (mem_trades.mp ht).1

/-- The trades of a range come in the order of their timestamps and ids, each once. -/
theorem trades_sorted : (v.trades fromTimestamp toTimestamp).Pairwise fun t t' =>
    Pricing.keyLt t.key t'.key = true := by
  have hsorted : SortedDict.Sorted Pricing.keyLt
    (SortedDict.irange Pricing.keyLt (fromTimestamp.map (·, 0)) (toTimestamp.map (·, 0))
      v.entries) := v.sorted.irange
  refine List.pairwise_map.mpr (hsorted.imp_of_mem fun {x y} hx hy hlt => ?_)
  have hkey {z : TradeKey × Trade} (hz : z ∈ SortedDict.irange Pricing.keyLt
      (fromTimestamp.map (·, 0)) (toTimestamp.map (·, 0)) v.entries) : z.1 = z.2.key :=
    v.keyed z (SortedDict.mem_irange.mp hz).1
  rwa [← hkey hx, ← hkey hy]

/-- A range is cut in two at a timestamp between its bounds. -/
theorem trades_append {b : Int} (hfrom : ∀ a ∈ fromTimestamp, a ≤ b)
    (hto : ∀ c ∈ toTimestamp, b ≤ c) : v.trades fromTimestamp toTimestamp =
      v.trades fromTimestamp (some b) ++ v.trades (some b) toTimestamp := by
  have hbound {a c : Int} (h : a ≤ c) : ((a, 0) : TradeKey) = (c, 0) ∨
      Pricing.keyLt ((a, 0) : TradeKey) (c, 0) = true := by
    rcases h.eq_or_lt with rfl | hlt
    · exact .inl rfl
    · exact .inr (by rw [keyLt_bound]; exact decide_eq_true hlt)
  unfold trades
  rw [← List.map_append, Option.map_some]
  refine congrArg _ (SortedDict.irange_append (fun _ _ _ => Pricing.keyLt_trans) v.sorted ?_ ?_)
  · intro _ hk
    obtain ⟨a, ha, rfl⟩ := Option.mem_map.mp hk
    exact hbound (hfrom a ha)
  · intro _ hk
    obtain ⟨c, hc, rfl⟩ := Option.mem_map.mp hk
    exact hbound (hto c hc)

end TradesView

/-! ## Runs -/

inductive TradesOp where
  | addPending (o : PendingOffer)
  | reportCompleted (offerId : Nat) (completedTimestamp : Int)

namespace TradesView

/-- A call that raises leaves behind what it has done. -/
def step (v : TradesView) : TradesOp → TradesView
  | .addPending o => v.addPending o
  | .reportCompleted offerId timestamp => ((reportCompleted offerId timestamp).run v).state

def run (ops : List TradesOp) : TradesView := LTS.run step .empty ops

/-- The trade that a call completes. -/
def completion (v : TradesView) : TradesOp → Option Trade
  | .addPending _ => none
  | .reportCompleted offerId timestamp =>
    match v.getPendingById offerId with
    | some (.offer o) => some { offer := o, timestamp := timestamp }
    | _ => none

/-- The completed trades of a run, in the order of their completions. -/
def completions (ops : List TradesOp) : List Trade :=
  (LTS.trace step .empty ops).filterMap fun x => x.1.completion x.2

end TradesView

/-- No later trade has the key of this one. -/
def Latest (ts : List Trade) (t : Trade) : Prop :=
  ∃ before after, ts = before ++ t :: after ∧ ∀ t' ∈ after, t'.key ≠ t.key

theorem latest_concat {ts : List Trade} {t t' : Trade} :
    Latest (ts ++ [t']) t ↔ t = t' ∨ t.key ≠ t'.key ∧ Latest ts t := by
  constructor
  · rintro ⟨before, after, heq, hnew⟩
    rcases List.eq_nil_or_concat after with rfl | ⟨after, t'', rfl⟩
    · exact .inl (List.singleton_injective (List.append_inj_right' heq rfl)).symm
    · rw [List.concat_eq_append, ← List.cons_append, ← List.append_assoc] at heq
      obtain ⟨rfl, hlast⟩ := List.append_inj' heq rfl
      obtain rfl := List.singleton_injective hlast
      rw [List.concat_eq_append, List.forall_mem_append] at hnew
      exact .inr ⟨(hnew.2 _ (List.mem_singleton_self _)).symm, before, after, rfl, hnew.1⟩
  · rintro (rfl | ⟨hne, before, after, rfl, hnew⟩)
    · exact ⟨ts, [], rfl, fun _ h => absurd h List.not_mem_nil⟩
    · refine ⟨before, after ++ [t'], by rw [List.append_assoc]; rfl, ?_⟩
      rw [List.forall_mem_append]
      exact ⟨hnew, fun t'' h => List.mem_singleton.mp h ▸ hne.symm⟩

/-- Where all keys are distinct, every trade is the latest with its key. -/
theorem latest_iff_mem {ts : List Trade} (h : (ts.map Trade.key).Nodup) {t : Trade} :
    Latest ts t ↔ t ∈ ts := by
  constructor
  · rintro ⟨before, after, rfl, -⟩
    exact List.mem_append_right _ List.mem_cons_self
  · intro ht
    obtain ⟨before, after, rfl⟩ := List.append_of_mem ht
    refine ⟨before, after, rfl, ?_⟩
    intro t' ht' heq
    rw [List.map_append, List.map_cons] at h
    exact (List.nodup_cons.mp h.of_append_right).1 (heq ▸ List.mem_map_of_mem ht')

namespace TradesView

variable {v : TradesView} {t : Trade}

/-- What a report does, by what waits under the id. -/
theorem reportCompleted_run (v : TradesView) (offerId : Nat) (timestamp : Int) :
    (reportCompleted offerId timestamp).run v =
      match v.getPendingById offerId with
      | none => .ok none v
      | some (.entry _) => .error .assertionError (v.removePending offerId)
      | some (.offer o) =>
        .ok (some o.offerId)
          ((v.removePending offerId).addTrade { offer := o, timestamp := timestamp }) := by
  have hget : v.getPendingById offerId = v.pendingOfferById.lookup offerId := rfl
  rw [reportCompleted, EStateM.run_bind, EStateM.run_get]
  cases hpending : v.pendingOfferById.lookup offerId with
  | none => simp only [hget, hpending, EStateM.run_pure]
  | some pending =>
    simp only [hget, hpending]
    cases pending <;> rfl

theorem mem_addTrade {t' : Trade} : (t.key, t) ∈ (v.addTrade t').entries ↔
    t = t' ∨ t.key ≠ t'.key ∧ (t.key, t) ∈ v.entries := by
  unfold addTrade
  rw [SortedDict.mem_set]
  refine or_congr_left ⟨And.right, ?_⟩
  rintro rfl
  exact ⟨rfl, rfl⟩

/-- The trade that a call completes is added, and no call changes the trades otherwise. -/
theorem entries_step (op : TradesOp) : (v.step op).entries =
    match v.completion op with
    | none => v.entries
    | some t => (v.addTrade t).entries := by
  cases op with
  | addPending o => rfl
  | reportCompleted offerId timestamp =>
    simp only [step, completion, reportCompleted_run]
    cases v.getPendingById offerId with
    | none => rfl
    | some pending => cases pending <;> rfl

theorem completions_concat (ops : List TradesOp) (op : TradesOp) :
    completions (ops ++ [op]) = completions ops ++ ((run ops).completion op).toList := by
  rw [completions, LTS.trace_concat, List.filterMap_append]
  rfl

/-- The trades are the latest completed ones. -/
theorem mem_entries_run (ops : List TradesOp) (t : Trade) :
    (t.key, t) ∈ (run ops).entries ↔ Latest (completions ops) t := by
  induction ops using List.reverseRecOn with
  | nil =>
    refine iff_of_false List.not_mem_nil ?_
    rintro ⟨before, after, heq, -⟩
    exact List.append_ne_nil_of_right_ne_nil _ (List.cons_ne_nil _ _) heq.symm
  | append_singleton ops op ih =>
    rw [completions_concat, run, LTS.run_concat, ← run, entries_step]
    cases (run ops).completion op with
    | none => rw [Option.toList_none, List.append_nil]; exact ih
    | some t' => rw [Option.toList_some, latest_concat, ← ih]; exact mem_addTrade

theorem nodup_trades (fromTimestamp toTimestamp : Option Int) :
    (v.trades fromTimestamp toTimestamp).Nodup := by
  refine trades_sorted.imp fun {t t'} hlt => ?_
  rintro rfl
  rw [Pricing.keyLt_irrefl] at hlt
  cases hlt

/-- A range query gives the completed trades of the range in the order of their timestamps and
ids: of several with the same timestamp and id the last, and all of them when there are no such.
Two ranges that meet are one. -/
theorem trades_range (ops : List TradesOp) (fromTimestamp toTimestamp : Option Int) :
    ((run ops).trades fromTimestamp toTimestamp).Pairwise
      (fun t t' => Pricing.keyLt t.key t'.key = true) ∧
    (∀ t, t ∈ (run ops).trades fromTimestamp toTimestamp ↔
      Latest (completions ops) t ∧ InRange fromTimestamp toTimestamp t.timestamp) ∧
    (((completions ops).map Trade.key).Nodup →
      ((run ops).trades fromTimestamp toTimestamp).Perm
        ((completions ops).filter fun t => InRange fromTimestamp toTimestamp t.timestamp)) ∧
    ∀ b, (∀ a ∈ fromTimestamp, a ≤ b) → (∀ c ∈ toTimestamp, b ≤ c) →
      (run ops).trades fromTimestamp toTimestamp =
        (run ops).trades fromTimestamp (some b) ++ (run ops).trades (some b) toTimestamp := by
  have hmem (t : Trade) : t ∈ (run ops).trades fromTimestamp toTimestamp ↔
      Latest (completions ops) t ∧ InRange fromTimestamp toTimestamp t.timestamp := by
    rw [mem_trades, mem_entries_run]
  refine ⟨trades_sorted, hmem, fun hkeys => ?_, fun b hfrom hto => trades_append hfrom hto⟩
  refine (List.perm_ext_iff_of_nodup (nodup_trades _ _) (hkeys.of_map.filter _)).mpr ?_
  intro t
  rw [hmem, latest_iff_mem hkeys, List.mem_filter, decide_eq_true_eq]

/-- An offer is completed twice at one time under the same id: only the second trade is kept. -/
theorem second_completion_replaces : ∃ o o' : BasicOffer Nat,
    completions [.addPending (.offer o), .reportCompleted 5 10, .addPending (.offer o'),
      .reportCompleted 5 10] = [⟨o, 10⟩, ⟨o', 10⟩] ∧
    (run [.addPending (.offer o), .reportCompleted 5 10, .addPending (.offer o'),
      .reportCompleted 5 10]).values = [⟨o', 10⟩] :=
  ⟨{ offerId := 5, type := .buy, baseAmount := 1, quoteAmount := 1, timeoutDate := 100 },
    { offerId := 5, type := .buy, baseAmount := 2, quoteAmount := 1, timeoutDate := 100 },
    by decide +kernel, by decide +kernel⟩

end TradesView

end RaidexNode
end Raidex
