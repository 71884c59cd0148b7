import Raidex.Protocol.Agreement
import Raidex.RaidexNode.Strangers

/-!
# Raidex.Protocol.Partners

Each node trades with the other one only, although both hear what they broadcast themselves.

* `Partners`: the books and the matches of both nodes are of the other node.
* `no_self_trade`: so they are in every run in which what goes from party to party was sent.
-/

namespace Raidex
namespace Protocol

open RaidexNode (App BasicOffer Event)

structure Partners (P : Parties) (g : System) : Prop where
  apart : ∀ side, (g.node side).Apart (· = P.address side.other) (P.address side) P.market

section

variable {P : Parties} {g : System} {side : Side} {i : Input}

theorem Side.eq_or_other (side side' : Side) : side' = side ∨ side' = side.other := by
  cases side <;> cases side' <;> decide

theorem Parties.address_other_ne (P : Parties) (side : Side) :
    P.address side.other ≠ P.address side := by
  cases side with
  | maker => exact P.distinct.symm
  | taker => exact P.distinct

theorem Partners.init : Partners P P.init where
  apart side := by cases side <;> exact .init P.market P.service

/-- A broadcast is of the other node, or of an offer that the node made. -/
theorem Partners.delivered (h : Partners P g)
    (hmarket : P.market.baseToken ≠ P.market.quoteToken) {i : App.Input}
    (hd : Delivers P g (.node side i)) :
    i.Apart (· = P.address side.other) P.crypto (g.node side) := by
  cases i with
  | provenOffer m =>
    intro initiator hsender
    cases (sender_of_sent hd).symm.trans hsender
    rfl
  | broadcast m =>
    have hsent : ∃ side', m ∈ P.provenOffers g side' none :=
      (List.mem_append.mp hd).elim (fun hm => ⟨.maker, hm⟩) fun hm => ⟨.taker, hm⟩
    obtain ⟨side', hm⟩ := hsent
    obtain ⟨r, o, ho, -, hmsg⟩ := offer_of_sent hm
    rw [(h.apart side').market] at hmsg
    obtain ⟨e, he, hterms, hinitiator, -⟩ :=
      RaidexNode.toEntry_provenOfferMsg (P.recovers (P.address side')) hmarket hmsg
    intro e' he'
    rw [(h.apart side).market] at he'
    cases he.symm.trans he'
    rcases side.eq_or_other side' with rfl | rfl
    · right
      have hid : e.offerId = o.offerId := congrArg BasicOffer.offerId hterms
      rw [hid]
      exact (h.apart side').known o (List.mem_of_getElem? ho)
    · exact .inl hinitiator
  | _ => trivial

theorem Partners.step (h : Partners P g) (hmarket : P.market.baseToken ≠ P.market.quoteToken)
    (hd : Delivers P g i) : Partners P (step P g i) := by
  constructor
  intro side'
  cases i with
  | node side i =>
    simp only [Protocol.step, node_setNode]
    split
    next hside => subst hside; exact (h.apart side').step (h.delivered hmarket hd)
    next => exact h.apart side'
  | offerTaken side offerId =>
    simp only [Protocol.step, node_setNode]
    split
    next hside =>
      subst hside
      obtain ⟨book, hbook, hvalues⟩ := processOfferTaken_book (g.node side') offerId
      have ha := h.apart side'
      rw [hbook]
      exact ⟨ha.market, ha.known, fun e he => ha.listed e (hvalues e he),
        ha.matched.quiet (RaidexNode.book_quiet _ book), ha.published, ha.called⟩
    next => exact h.apart side'
  | service i =>
    cases side' with
    | maker => exact h.apart .maker
    | taker => exact h.apart .taker

end

/-- In every run in which what goes from party to party was sent, a node that hears its own
broadcasts too lists offers of the other node only, is matched with no offer of its own, and pays
for no match but with the other node. -/
theorem no_self_trade (P : Parties) (hmarket : P.market.baseToken ≠ P.market.quoteToken)
    (is : List Input) (h : LTS.AllSteps (step P) (Delivers P) P.init is) (side : Side) :
    (∀ e ∈ ((run P is).node side).node.offerBook.values, e.initiator = P.address side.other) ∧
    (∀ id m, ((run P is).node side).node.matchesById.lookup id = some m →
      m.target = P.address side.other) ∧
    (∀ m, Event.trader (.swapInit m) ∈ ((run P is).node side).node.events →
      m.target = P.address side.other) ∧
    P.address side.other ≠ P.address side := by
  have hinv : Partners P (run P is) := LTS.run_invariant_of_guard (step P) (Delivers P)
    (fun _ g => Partners P g) .init (fun _ _ _ hg hi => hg.step hmarket hi) is h
  have hmatched := (hinv.apart side).matched
  refine ⟨(hinv.apart side).listed, ?_, ?_, P.address_other_ne side⟩
  · intro id m hm
    obtain ⟨b, htarget, -⟩ := (hmatched.matched id m hm).offered
    exact htarget
  · intro m hm
    obtain ⟨-, id, htraced⟩ := hmatched.paid m hm
    obtain ⟨b, htarget, -⟩ := htraced.offered
    exact htarget

/-- The maker hears its own broadcast, and makes the opposite order. -/
def hearsItself : List Input :=
  makerOffers ++
    [.node .maker (.broadcast { offer := { askToken := 2, askAmount := 5, bidToken := 1
                                           bidAmount := 5, offerId := 7, timeout := 60000 }
                                commitmentProof := commitmentProved 3, signature := some 3 }),
     handling .maker 0, .node .maker (.postLimitOrder 2 "BUY" (.int 5) (Float.Model.ofInt 1)),
     handling .maker 8]

theorem own_broadcast_unmatched :
    (∀ e ∈ ((run plainParties hearsItself).node .maker).node.offerBook.values,
      e.initiator = plainParties.address .taker) ∧
    (∀ id m, ((run plainParties hearsItself).node .maker).node.matchesById.lookup id = some m →
      m.target = plainParties.address .taker) ∧
    (∀ m, Event.trader (.swapInit m) ∈ ((run plainParties hearsItself).node .maker).node.events →
      m.target = plainParties.address .taker) ∧
    plainParties.address .taker ≠ plainParties.address .maker :=
  no_self_trade plainParties (by decide) hearsItself (by decide +kernel) .maker

/-- Two offers to make, and the consumer still runs. -/
example : ((run plainParties hearsItself).node .maker).running = true ∧
    ((run plainParties hearsItself).node .maker).node.offers.map (fun o => o.traderRole) =
      [.maker, .maker] := by
  decide +kernel

end Protocol
end Raidex
