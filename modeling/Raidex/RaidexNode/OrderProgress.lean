import Raidex.RaidexNode.OrderFunds

/-!
# Raidex.RaidexNode.OrderProgress

What a limit order says about its progress while its offers are traded.

* `LimitOrder.amountTraded`, `LimitOrder.completed`: the properties of the order.
* `GoesOn`: offers keep their amounts, and those that have ended stay as they are.
  `completed_handled`: only a payment completes an offer.
* `Progress`: from one state to a later one the amount does not decrease, it does not exceed that
  of the order, and an order that is completed has come to its end.
* `Funded`: the amounts of the offers add up; so they do in every reachable node.
* `progress_iff`: orders progress exactly as long as no payment completes an offer of an order of
  which another offer is completed and none is open.
-/

namespace Raidex
namespace RaidexNode

/-! ## The properties of an order -/

/-- The offer at `r`; only a model has a state and a status. -/
def Node.modelAt (s : Node) (r : OfferRef) : Except PyError Offer :=
  match s.offers[r]? with
  | none => .error .attributeError
  | some o => if o.isModel then .ok o else .error .attributeError

/-- Some offer has the status. -/
def Node.hasStatus (s : Node) (status : OfferState) : List (Nat × OfferRef) → Except PyError Bool
  | [] => return false
  | x :: rest => do
    if (← s.modelAt x.2).state.status = status then return true
    else s.hasStatus status rest

namespace LimitOrder

def open_ (order : LimitOrder) (s : Node) : Except PyError Bool :=
  s.hasStatus .open_ order.correspondingOffers

def completed (order : LimitOrder) (s : Node) : Except PyError Bool := do
  if ← order.open_ s then return false
  s.hasStatus .completed order.correspondingOffers

def amountTraded (order : LimitOrder) (s : Node) : Except PyError Number :=
  order.correspondingOffers.foldlM (fun amountTraded x => do
    let o ← s.modelAt x.2
    if o.state = .completed then amountTraded.add o.baseAmount else return amountTraded) (.int 0)

/-- What happens to an order from one state to a later one. -/
structure Progress (order : LimitOrder) (s s' : Node) : Prop where
  amount : ∀ p, order.amountTraded s = .ok p → ∃ q x y, order.amountTraded s' = .ok q ∧
    p.exact = some x ∧ q.exact = some y ∧ x ≤ y ∧ ∀ z, order.amount.exact = some z → y ≤ z
  final : order.completed s = .ok true →
    order.completed s' = .ok true ∧ order.amountTraded s' = order.amountTraded s

end LimitOrder

section

variable {s : Node} {r : OfferRef} {o : Offer} {status : OfferState} {l : List (Nat × OfferRef)}
  {order : LimitOrder} {p : Number}

theorem modelAt_eq_ok : s.modelAt r = .ok o ↔ s.offers[r]? = some o ∧ o.isModel = true := by
  unfold Node.modelAt
  cases s.offers[r]? with
  | none => exact ⟨nofun, nofun⟩
  | some o' =>
    simp only
    split
    next hmodel =>
      constructor
      · intro h
        cases h
        exact ⟨rfl, hmodel⟩
      · rintro ⟨⟨⟩, -⟩
        rfl
    next hmodel =>
      constructor
      · exact nofun
      · rintro ⟨⟨⟩, hmodel'⟩
        exact absurd hmodel' hmodel

theorem hasStatus_eq_false : s.hasStatus status l = .ok false ↔
    ∀ x ∈ l, ∃ o, s.offers[x.2]? = some o ∧ o.isModel = true ∧ o.state.status ≠ status := by
  induction l with
  | nil => exact iff_of_true rfl fun x hx => absurd hx List.not_mem_nil
  | cons x l ih =>
    rw [List.forall_mem_cons, ← ih, Node.hasStatus, Except.bind_eq_ok]
    constructor
    · rintro ⟨o, ho, h⟩
      obtain ⟨ho, hmodel⟩ := modelAt_eq_ok.mp ho
      split at h
      · cases h
      next hne => exact ⟨⟨o, ho, hmodel, hne⟩, h⟩
    · rintro ⟨⟨o, ho, hmodel, hne⟩, h⟩
      exact ⟨o, modelAt_eq_ok.mpr ⟨ho, hmodel⟩, by rw [if_neg hne]; exact h⟩

theorem hasStatus_eq_true (h : ∀ x ∈ l, ∃ o, s.offers[x.2]? = some o ∧ o.isModel = true) :
    s.hasStatus status l = .ok true ↔
      ∃ x ∈ l, ∃ o, s.offers[x.2]? = some o ∧ o.state.status = status := by
  induction l with
  | nil => exact iff_of_false nofun (by simp)
  | cons x l ih =>
    obtain ⟨⟨o, ho, hmodel⟩, htail⟩ := List.forall_mem_cons.mp h
    rw [Node.hasStatus, modelAt_eq_ok.mpr ⟨ho, hmodel⟩, List.exists_mem_cons_iff, ← ih htail]
    show (if o.state.status = status then _ else _) = _ ↔ _
    split
    next heq => exact iff_of_true rfl (.inl ⟨o, ho, heq⟩)
    next hne =>
      refine (or_iff_right ?_).symm
      rintro ⟨o', ho', heq⟩
      cases ho.symm.trans ho'
      exact hne heq

theorem status_eq_completed {st : OfferState} : st.status = .completed ↔ st = .completed := by
  cases st <;> decide

theorem completed_eq_true : order.completed s = .ok true ↔
    (∀ x ∈ order.correspondingOffers, ∃ o, s.offers[x.2]? = some o ∧ o.isModel = true ∧
      o.state.status ≠ .open_) ∧
    ∃ x ∈ order.correspondingOffers, ∃ o, s.offers[x.2]? = some o ∧ o.state = .completed := by
  have hmodels (h : ∀ x ∈ order.correspondingOffers, ∃ o, s.offers[x.2]? = some o ∧
      o.isModel = true ∧ o.state.status ≠ .open_) : Modelled s order := by
    intro x hx
    obtain ⟨o, ho, hmodel, -⟩ := h x hx
    exact ⟨o, ho, hmodel⟩
  unfold LimitOrder.completed LimitOrder.open_
  rw [Except.bind_eq_ok]
  constructor
  · rintro ⟨isOpen, hopen, h⟩
    cases isOpen with
    | true => cases h
    | false =>
      have hclosed := hasStatus_eq_false.mp hopen
      obtain ⟨x, hx, o, ho, hstate⟩ := (hasStatus_eq_true (hmodels hclosed)).mp h
      exact ⟨hclosed, x, hx, o, ho, status_eq_completed.mp hstate⟩
  · rintro ⟨hclosed, x, hx, o, ho, hstate⟩
    exact ⟨false, hasStatus_eq_false.mpr hclosed, (hasStatus_eq_true (hmodels hclosed)).mpr
      ⟨x, hx, o, ho, status_eq_completed.mpr hstate⟩⟩

/-- The base amount of the offer at `r`, if it is completed. -/
def Node.tradedAmount? (s : Node) (r : OfferRef) : Option Number :=
  s.offers[r]?.bind fun o => if o.state = .completed then some o.baseAmount else none

def Node.tradedAmounts (s : Node) (placed : List (Nat × OfferRef)) : List Number :=
  placed.filterMap fun x => s.tradedAmount? x.2

theorem tradedAmounts_completed {x : Nat × OfferRef} (ho : s.offers[x.2]? = some o)
    (hstate : o.state = .completed) :
    s.tradedAmounts (x :: l) = o.baseAmount :: s.tradedAmounts l := by
  refine List.filterMap_cons_some ?_
  rw [Node.tradedAmount?, ho]
  exact if_pos hstate

theorem tradedAmounts_other {x : Nat × OfferRef} (ho : s.offers[x.2]? = some o)
    (hstate : o.state ≠ .completed) : s.tradedAmounts (x :: l) = s.tradedAmounts l := by
  refine List.filterMap_cons_none ?_
  rw [Node.tradedAmount?, ho]
  exact if_neg hstate

/-- The amount that is traded is the sum over the completed offers. -/
theorem amountTraded_eq_ok : order.amountTraded s = .ok p ↔
    Modelled s order ∧ Number.sum (s.tradedAmounts order.correspondingOffers) = .ok p := by
  unfold LimitOrder.amountTraded Modelled Number.sum
  generalize Number.int 0 = b
  induction order.correspondingOffers generalizing b with
  | nil => exact (and_iff_right fun x hx => absurd hx List.not_mem_nil).symm
  | cons x l ih =>
    rw [List.foldlM_cons, Except.bind_eq_ok, List.forall_mem_cons]
    constructor
    · rintro ⟨c, hc, h⟩
      obtain ⟨o, ho, hc⟩ := Except.bind_eq_ok.mp hc
      obtain ⟨ho, hmodel⟩ := modelAt_eq_ok.mp ho
      obtain ⟨hmodels, hsum⟩ := (ih c).mp h
      refine ⟨⟨⟨o, ho, hmodel⟩, hmodels⟩, ?_⟩
      split at hc
      next hstate =>
        rw [tradedAmounts_completed ho hstate, List.foldlM_cons, hc]
        exact hsum
      next hstate =>
        cases hc
        rw [tradedAmounts_other ho hstate]
        exact hsum
    · rintro ⟨⟨⟨o, ho, hmodel⟩, hmodels⟩, hsum⟩
      have hread := modelAt_eq_ok.mpr ⟨ho, hmodel⟩
      by_cases hstate : o.state = .completed
      · rw [tradedAmounts_completed ho hstate, List.foldlM_cons, Except.bind_eq_ok] at hsum
        obtain ⟨c, hc, hsum⟩ := hsum
        refine ⟨c, Except.bind_eq_ok.mpr ⟨o, hread, ?_⟩, (ih c).mpr ⟨hmodels, hsum⟩⟩
        rw [if_pos hstate]
        exact hc
      · rw [tradedAmounts_other ho hstate] at hsum
        refine ⟨b, Except.bind_eq_ok.mpr ⟨o, hread, ?_⟩, (ih b).mpr ⟨hmodels, hsum⟩⟩
        rw [if_neg hstate]
        rfl

end

/-! ## Offers that end -/

def OfferState.ended : OfferState → Bool
  | .completed | .canceled => true
  | _ => false

theorem ended_dest {st : OfferState} (h : st.ended = true) (t : OfferTrigger) :
    t.dest st = none := by
  cases st <;> cases h <;> cases t <;> rfl

/-- An offer does not become open again. -/
theorem closed_dest {st d : OfferState} {t : OfferTrigger} (hd : t.dest st = some d)
    (h : st.status ≠ .open_) : d.status ≠ .open_ := by
  cases t <;> cases st <;> cases hd <;> first | exact absurd rfl h | decide

/-- Offers that have ended stay as they are, and the others may have gone on. -/
structure GoesOn (s s' : Node) : Prop where
  advances : s.Advances s'
  closed : ∀ (r : OfferRef) (o o' : Offer), s.offers[r]? = some o → s'.offers[r]? = some o' →
    o.state.status ≠ .open_ → o'.state.status ≠ .open_
  ended : ∀ (r : OfferRef) (o : Offer), s.offers[r]? = some o → o.state.ended = true →
    s'.offers[r]? = some o

namespace GoesOn

variable {s s₁ s' : Node} {r : OfferRef} {o : Offer} {t : OfferTrigger} {d : OfferState}
  {k : OfferKwargs} {fresh : Prop} {sc : StateChange}

theorem of_old (h : ∀ (r : OfferRef) (o : Offer), s.offers[r]? = some o → s'.offers[r]? = some o) :
    GoesOn s s' where
  advances r o ho := ⟨o, h r o ho, .refl o⟩
  closed r o o' ho ho' hclosed := by
    cases (h r o ho).symm.trans ho'
    exact hclosed
  ended r o ho _ := h r o ho

theorem of_eq (h : s'.offers = s.offers) : GoesOn s s' := of_old fun _ _ ho => h ▸ ho

theorem trans (h : GoesOn s s₁) (h' : GoesOn s₁ s') : GoesOn s s' where
  advances := h.advances.trans h'.advances
  closed r o o' ho ho' hclosed := by
    obtain ⟨o₁, ho₁, -⟩ := h.advances r o ho
    exact h'.closed r o₁ o' ho₁ ho' (h.closed r o o₁ ho ho₁ hclosed)
  ended r o ho he := h'.ended r o (h.ended r o ho he) he

theorem entered (ho : s.offers[r]? = some o) (hd : t.dest o.state = some d) :
    GoesOn s (s.entered r o d k) := by
  refine ⟨.entered ho hd, ?_, ?_⟩
  · intro r' o₁ o' ho₁ ho' hclosed
    rcases entered_cases ho' with ⟨rfl, rfl⟩ | ⟨-, ho'⟩
    · cases ho.symm.trans ho₁
      exact closed_dest hd hclosed
    · cases ho₁.symm.trans ho'
      exact hclosed
  · intro r' o' ho' he
    by_cases hr : r' = r
    · subst hr
      cases ho.symm.trans ho'
      rw [ended_dest he] at hd
      cases hd
    · exact (entered_other hr).trans ho'

theorem effect (h : Effect fresh sc s s') : GoesOn s s' := by
  cases h with
  | quiet h => exact of_eq h.offers
  | created data b role _ => exact of_old fun _ _ ho => created_old ho
  | taken data e _ => exact of_old fun _ _ ho => created_old ho
  | entered ho hmodel hd hfires => exact entered ho hd
  | provedMatched p hr ho hmodel hstate hm hr' ho' hmodel' hd =>
    have hproved : OfferTrigger.receiveCommitmentProof.dest _ = some .openProved :=
      congrArg _ hstate
    exact (entered ho hproved).trans ((entered ho' hd).trans (of_eq rfl))
  | called offerId initiator p hr ho hmodel hd => exact (entered ho hd).trans (of_eq rfl)
  | completed e hm hr ho hmodel hstate hr' =>
    have hinbound : OfferTrigger.receivedInbound.dest _ = some .completed := congrArg _ hstate
    exact (entered ho hinbound).trans (of_eq rfl)

theorem broken (h : Broken sc s s') : GoesOn s s' := by
  cases h with
  | unmatched p hr ho hmodel hstate hm =>
    have hproved : OfferTrigger.receiveCommitmentProof.dest _ = some .openProved :=
      congrArg _ hstate
    exact entered ho hproved
  | called offerId initiator p => exact of_eq rfl
  | unremoved e hm hr ho hmodel hstate =>
    have hinbound : OfferTrigger.receivedInbound.dest _ = some .completed := congrArg _ hstate
    exact (entered ho hinbound).trans (of_eq rfl)

theorem handled (env : Env) (sc : StateChange) (s : Node) :
    GoesOn s ((handleStateChange env sc).run s).state := by
  have hproceeds := handled_proceeds env sc s
  exact hproceeds.invariant (P := GoesOn s) (of_eq rfl) (fun _ _ heff h => h.trans (effect heff))
    (fun _ _ hbroken h => h.trans (broken hbroken)) fun _ h => h

theorem step (C : Crypto) (a : App) (i : App.Input) : GoesOn a.node (a.step C i).node := by
  rcases App.step_cases C a i with ⟨hquiet, -⟩ | ⟨env, sc, rest, -, -, -, hnode, -⟩
  · exact of_eq hquiet.offers
  · exact hnode ▸ handled env sc a.node

end GoesOn

/-! ## What completes an offer -/

/-- The payment completes the offer at `r`. -/
def Node.Completes (s : Node) (e : PaymentReceivedEvent) (r : OfferRef) : Prop :=
  ∃ m ∈ s.matchesById.lookup e.identifier, m.offer = some r ∧
    ∃ o ∈ s.offers[r]?, o.isModel = true ∧ o.state = .pendingWaitForRefund

section

variable {s s' : Node} {r : OfferRef} {o o' : Offer} {fresh : Prop} {sc : StateChange}
  {env : Env} {e : PaymentReceivedEvent} {m : Match} {d : OfferState}

/-- The offer of the match enters the next state, also when its model is not found. -/
theorem transferReceived_fires (hm : s.matchesById.lookup e.identifier = some m)
    (hr : m.offer = some r) (ho : s.offers[r]? = some o) (hmodel : o.isModel = true)
    (hd : OfferTrigger.receivedInbound.dest o.state = some d) :
    ((handleTransferReceived e).run s).state.offers =
      (s.entered r o d { raidenEvent := some e }).offers := by
  have hrun := callOffer_ok (k := { raidenEvent := some e }) ho hmodel hd fun _ => rfl
  have hclean : EStateM.Moves (fun s s' : Node => s'.offers = s.offers)
      (modify fun s => s.cleanUpTimeout e.identifier : NodeM Unit) := fun _ => rfl
  have hremove (o' : Offer) : EStateM.Moves (fun s s' : Node => s'.offers = s.offers)
      (removeModel r o') := by
    intro t
    cases hfind : t.findModel r o' with
    | none => rw [removeModel_error hfind]; rfl
    | some r' => rw [removeModel_ok hfind]; rfl
  unfold handleTransferReceived
  rw [EStateM.run_bind, EStateM.run_get]
  simp only [hm, receivedInbound, hr]
  rw [EStateM.run_seq_ok hrun]
  have hread := readOffer_ok (entered_self (d := d) (k := { raidenEvent := some e }) ho)
  rw [EStateM.run_seq_ok hread]
  split
  next => exact EStateM.moves_bind (fun _ _ _ h h' => h'.trans h) hclean (fun _ => hremove _) _
  next => rfl

theorem transferReceived_refused (h : ¬ ∃ m r, s.matchesById.lookup e.identifier = some m ∧
    m.offer = some r ∧ s.CanFire r .receivedInbound) :
    ((handleTransferReceived e).run s).state.offers = s.offers := by
  unfold handleTransferReceived
  rw [EStateM.run_bind, EStateM.run_get]
  cases hm : s.matchesById.lookup e.identifier with
  | none =>
    simp only [hm]
    rfl
  | some m =>
    simp only [hm, receivedInbound]
    cases hr : m.offer with
    | none => rfl
    | some r =>
      obtain ⟨err, hrun⟩ := callOffer_error (k := { raidenEvent := some e })
        fun hfire => h ⟨m, r, hm, hr, hfire⟩
      simp only
      rw [EStateM.run_seq_error hrun]
      rfl

theorem completed_entered {r' : OfferRef} {k : OfferKwargs} (hd : d ≠ .completed)
    (ho' : (s.entered r o d k).offers[r']? = some o') (hstate : o'.state = .completed) :
    s.offers[r']? = some o' := by
  rcases entered_cases ho' with ⟨rfl, rfl⟩ | ⟨-, ho'⟩
  · exact absurd hstate hd
  · exact ho'

theorem completed_created {b : BasicOffer Number} {role : TraderRole}
    (ho' : (s.created b role).offers[r]? = some o') (hstate : o'.state = .completed) :
    s.offers[r]? = some o' := by
  rcases created_cases ho' with ho' | ⟨rfl, rfl⟩
  · exact ho'
  · cases hstate

/-- Other state changes than a payment complete no offer. -/
theorem completed_effect (h : Effect fresh sc s s') (hsc : ∀ e, sc ≠ .transferReceived e)
    (ho' : s'.offers[r]? = some o') (hstate : o'.state = .completed) :
    s.offers[r]? = some o' := by
  cases h with
  | quiet h => exact h.offers ▸ ho'
  | created data b role _ => exact completed_created ho' hstate
  | taken data e _ =>
    have ho' : (s.created e.takeOffer .taker).offers[r]? = some o' := ho'
    exact completed_created ho' hstate
  | @entered _ _ r' o t k d ho hmodel hd hfires =>
    refine completed_entered (d := d) ?_ ho' hstate
    rintro rfl
    cases hfires with
    | inbound e => exact hsc e rfl
    | initiating | timeout | canceled | cancellationProved | published | proved =>
      cases hst : o.state <;> rw [hst] at hd <;> cases hd
  | @provedMatched _ r₁ o₁ m r₂ o₂ p =>
    have hmatched : (s.entered r₁ o₁ .openProved { proof := some p }).offers[r]? = some o' :=
      completed_entered (d := .pendingExchanging) nofun ho' hstate
    exact completed_entered (d := .openProved) nofun hmatched hstate
  | called => exact completed_entered (d := .pendingExchanging) nofun ho' hstate
  | completed e => exact absurd rfl (hsc e)

theorem completed_broken (h : Broken sc s s') (hsc : ∀ e, sc ≠ .transferReceived e)
    (ho' : s'.offers[r]? = some o') (hstate : o'.state = .completed) :
    s.offers[r]? = some o' := by
  cases h with
  | unmatched => exact completed_entered (d := .openProved) nofun ho' hstate
  | called => exact ho'
  | unremoved e => exact absurd rfl (hsc e)

/-- An offer that is completed was so before, or the payment completes it. -/
theorem completed_handled
    (ho' : ((handleStateChange env sc).run s).state.offers[r]? = some o')
    (hstate : o'.state = .completed) :
    s.offers[r]? = some o' ∨ ∃ e, sc = .transferReceived e ∧ s.Completes e r := by
  by_cases hsc : ∃ e, sc = .transferReceived e
  swap
  · have hsc' : ∀ e, sc ≠ .transferReceived e := fun e he => hsc ⟨e, he⟩
    have hproceeds := handled_proceeds env sc s
    refine .inl (hproceeds.invariant (P := fun t => t.offers[r]? = some o' → s.offers[r]? = some o')
      id (fun t t' heff h ho' => h (completed_effect heff hsc' ho' hstate))
      (fun t t' hbroken h ho' => h (completed_broken hbroken hsc' ho' hstate)) (fun _ h => h) ho')
  obtain ⟨e, rfl⟩ := hsc
  change ((handleTransferReceived e).run s).state.offers[r]? = some o' at ho'
  by_cases hfires : ∃ m r, s.matchesById.lookup e.identifier = some m ∧ m.offer = some r ∧
      s.CanFire r .receivedInbound
  · obtain ⟨m, r', hm, hr, o, ho, hmodel, d, hd⟩ := hfires
    rw [transferReceived_fires hm hr ho hmodel hd] at ho'
    rcases entered_cases ho' with ⟨rfl, rfl⟩ | ⟨-, ho'⟩
    · refine .inr ⟨e, rfl, m, hm, hr, o, ho, hmodel, ?_⟩
      obtain rfl : d = .completed := hstate
      cases hst : o.state <;> rw [hst] at hd <;> cases hd
    · exact .inl ho'
  · rw [transferReceived_refused hfires] at ho'
    exact .inl ho'

variable (env) in
/-- What the payment completes is completed. -/
theorem Node.Completes.completed (h : s.Completes e r) :
    (∃ o, s.offers[r]? = some o ∧ o.state ≠ .completed) ∧
    ∃ o', ((handleStateChange env (.transferReceived e)).run s).state.offers[r]? = some o' ∧
      o'.state = .completed := by
  obtain ⟨m, hm, hr, o, ho, hmodel, hstate⟩ := h
  refine ⟨⟨o, ho, by rw [hstate]; exact nofun⟩, o.enter .completed { raidenEvent := some e },
    ?_, rfl⟩
  show ((handleTransferReceived e).run s).state.offers[r]? = _
  rw [transferReceived_fires hm hr ho hmodel (congrArg _ hstate)]
  exact entered_self ho

end

/-! ## The amounts along a run -/

/-- The offers of the order exist, and their amounts add up to at most that of the order. -/
structure Funded (s : Node) (order : LimitOrder) : Prop where
  known : ∀ x ∈ order.correspondingOffers, ∃ o, s.offers[x.2]? = some o
  funds : Funds order.amount (s.baseAmounts order.correspondingOffers)

section

variable {s s₁ s' : Node} {order : LimitOrder} {l : List (Nat × OfferRef)} {p : Number}

theorem baseAmounts_advances (h : s.Advances s') (hknown : ∀ x ∈ l, ∃ o, s.offers[x.2]? = some o) :
    s'.baseAmounts l = s.baseAmounts l := by
  refine List.filterMap_congr ?_
  intro x hx
  obtain ⟨o, ho⟩ := hknown x hx
  obtain ⟨o', ho', hlater⟩ := h x.2 o ho
  rw [Node.baseAmount?, Node.baseAmount?, ho, ho', Option.map_some, Option.map_some, hlater.basic]

theorem Funded.advances (h : Funded s order) (hadv : s.Advances s') : Funded s' order where
  known x hx := by
    obtain ⟨o, ho⟩ := h.known x hx
    obtain ⟨o', ho', -⟩ := hadv x.2 o ho
    exact ⟨o', ho'⟩
  funds := by
    rw [baseAmounts_advances hadv h.known]
    exact h.funds

theorem Modelled.advances (h : Modelled s order) (hadv : s.Advances s') : Modelled s' order := by
  intro x hx
  obtain ⟨o, ho, hmodel⟩ := h x hx
  obtain ⟨o', ho', hlater⟩ := hadv x.2 o ho
  exact ⟨o', ho', hlater.isModel.trans hmodel⟩

theorem tradedAmounts_sublist (s : Node) (l : List (Nat × OfferRef)) :
    (s.tradedAmounts l).Sublist (s.baseAmounts l) := by
  refine List.filterMap_sublist_filterMap ?_
  intro x _
  unfold Node.tradedAmount? Node.baseAmount?
  cases s.offers[x.2]? with
  | none => exact .inl rfl
  | some o =>
    rw [Option.bind_some, Option.map_some]
    split
    · exact .inr rfl
    · exact .inl rfl

theorem GoesOn.tradedAmount? (h : GoesOn s s') (r : OfferRef) :
    s.tradedAmount? r = none ∨ s.tradedAmount? r = s'.tradedAmount? r := by
  unfold Node.tradedAmount?
  cases ho : s.offers[r]? with
  | none => exact .inl rfl
  | some o =>
    by_cases hstate : o.state = .completed
    · rw [h.ended r o ho (by rw [hstate]; rfl)]
      exact .inr rfl
    · rw [Option.bind_some, if_neg hstate]
      exact .inl rfl

/-- The amount that is traded is the exact sum, and it does not exceed that of the order. -/
theorem Funded.amountTraded (h : Funded s order) (hmodel : Modelled s order) :
    ∃ p, order.amountTraded s = .ok p ∧
      p.exact = some ((s.tradedAmounts order.correspondingOffers).map Number.value).sum ∧
      ∀ z, order.amount.exact = some z →
        ((s.tradedAmounts order.correspondingOffers).map Number.value).sum ≤ z := by
  have htraded := (tradedAmounts_sublist s order.correspondingOffers).subperm
  obtain ⟨p, hp, hexact⟩ := h.funds.addable.sum _ htraded
  exact ⟨p, amountTraded_eq_ok.mpr ⟨hmodel, hp⟩, hexact, (h.funds.subperm htraded).bounded⟩

theorem completed_goesOn (h : GoesOn s s') (hc : order.completed s = .ok true) :
    order.completed s' = .ok true := by
  obtain ⟨hclosed, x, hx, o, ho, hstate⟩ := completed_eq_true.mp hc
  refine completed_eq_true.mpr ⟨fun y hy => ?_, x, hx, o, h.ended x.2 o ho (by rw [hstate]; rfl),
    hstate⟩
  obtain ⟨o, ho, hmodel, hstatus⟩ := hclosed y hy
  obtain ⟨o', ho', hlater⟩ := h.advances y.2 o ho
  exact ⟨o', ho', hlater.isModel.trans hmodel, h.closed y.2 o o' ho ho' hstatus⟩

theorem completed_modelled (hc : order.completed s = .ok true) : Modelled s order := by
  intro x hx
  obtain ⟨o, ho, hmodel, -⟩ := (completed_eq_true.mp hc).1 x hx
  exact ⟨o, ho, hmodel⟩

/-- An order progresses as long as none of its offers is completed after it. -/
theorem Funded.progress (h : Funded s order) (hgoes : GoesOn s s')
    (hkept : order.completed s = .ok true → s'.tradedAmounts order.correspondingOffers =
      s.tradedAmounts order.correspondingOffers) : order.Progress s s' where
  amount p hp := by
    have hmodel := (amountTraded_eq_ok.mp hp).1
    obtain ⟨p', hp', hexact, -⟩ := h.amountTraded hmodel
    obtain ⟨q, hq, hexact', hle⟩ :=
      (h.advances hgoes.advances).amountTraded (hmodel.advances hgoes.advances)
    cases hp.symm.trans hp'
    refine ⟨q, _, _, hq, hexact, hexact', ?_, hle⟩
    have htraded := (tradedAmounts_sublist s' order.correspondingOffers).subperm
    rw [baseAmounts_advances hgoes.advances h.known] at htraded
    have hold : (s.tradedAmounts order.correspondingOffers).Sublist
        (s'.tradedAmounts order.correspondingOffers) :=
      List.filterMap_sublist_filterMap fun x _ => hgoes.tradedAmount? x.2
    exact (h.funds.addable.subperm htraded).sum_le hold.subperm
  final hc := by
    have hmodel := completed_modelled hc
    obtain ⟨p, hp, -⟩ := h.amountTraded hmodel
    refine ⟨completed_goesOn hgoes hc, ?_⟩
    rw [hp]
    refine amountTraded_eq_ok.mpr ⟨hmodel.advances hgoes.advances, ?_⟩
    rw [hkept hc]
    exact (amountTraded_eq_ok.mp hp).2

/-- An offer that is completed adds to the amount that is traded. -/
theorem Funded.amountTraded_ne (h : Funded s order) (hmodel : Modelled s order)
    (hgoes : GoesOn s s') {x : Nat × OfferRef} (hx : x ∈ order.correspondingOffers)
    (hold : s.tradedAmount? x.2 = none) {b : Number} (hnew : s'.tradedAmount? x.2 = some b) :
    order.amountTraded s' ≠ order.amountTraded s := by
  obtain ⟨p, hp, hexact, -⟩ := h.amountTraded hmodel
  obtain ⟨q, hq, hexact', -⟩ :=
    (h.advances hgoes.advances).amountTraded (hmodel.advances hgoes.advances)
  have htraded := (tradedAmounts_sublist s' order.correspondingOffers).subperm
  rw [baseAmounts_advances hgoes.advances h.known] at htraded
  have hlt := (List.filterMap_sublist_filterMap fun x _ => hgoes.tradedAmount? x.2).sum_map_lt
    (List.length_filterMap_lt (fun x _ => hgoes.tradedAmount? x.2) hx hold hnew)
    fun a ha => (h.funds.addable.positive a (htraded.subset ha)).2
  intro heq
  rw [hp, hq] at heq
  cases heq
  exact hlt.ne (Option.some.inj (hexact.symm.trans hexact'))

theorem LimitOrder.Progress.trans (h : order.Progress s s₁) (h' : order.Progress s₁ s') :
    order.Progress s s' where
  amount p hp := by
    obtain ⟨q, x, y, hq, hx, hy, hxy, -⟩ := h.amount p hp
    obtain ⟨q', x', y', hq', hx', hy', hxy', hle⟩ := h'.amount q hq
    cases hy.symm.trans hx'
    exact ⟨q', x, y', hq', hx, hy', hxy.trans hxy', hle⟩
  final hc := by
    obtain ⟨hc₁, heq⟩ := h.final hc
    obtain ⟨hc', heq'⟩ := h'.final hc₁
    exact ⟨hc', heq'.trans heq⟩

end

/-! ## The orders of a node -/

section

open EStateM (Moves)

variable {env : Env} {s : Node} {sc : StateChange}

theorem handleOfferTimeout_orders (offerId : Nat) :
    ((handleOfferTimeout offerId).run s).state.orders = s.orders := by
  have hclean : Moves Still (modify fun s => s.cleanUpTimeout offerId : NodeM Unit) :=
    Still.cleanUpTimeout offerId
  have hcall : Moves Still (callOffer? (s.getOffer offerId) .timeout {}) :=
    Still.callOffer? _ nofun
  unfold handleOfferTimeout
  rw [EStateM.run_bind, EStateM.run_get]
  simp only
  split
  · exact (Still.seq hcall (fun _ => hclean) s).orders
  split
  next hbook =>
    obtain ⟨book, hrun, -⟩ := removeFromBook_ok hbook
    rw [EStateM.run_seq_ok hrun]
    exact (hclean _).orders
  · exact (hclean s).orders

theorem handleOfferPublished_orders (e : OfferBookEntry) :
    ((handleOfferPublished env e).run s).state.orders = s.orders := by
  have hcall : Moves Still (callOffer? (s.getOffer e.offerId) .receivedOffer {}) :=
    Still.callOffer? _ nofun
  unfold handleOfferPublished
  rw [EStateM.run_bind, EStateM.run_get]
  simp only
  split
  · exact (hcall s).orders
  cases hins : s.offerBook.insertOffer e with
  | error err => rw [EStateM.run_seq_error (EStateM.run_ofExcept_error err s)]; rfl
  | ok book =>
    rw [EStateM.run_seq_ok (EStateM.run_ofExcept_ok book s)]
    exact (Still.seq (Still.createNewTimeout _ _ _) (fun _ => Still.value ()) _).orders

/-- Only a new limit order changes what is known of the orders. -/
theorem handled_orders (hsc : ∀ data, sc ≠ .newLimitOrder data) :
    ((handleStateChange env sc).run s).state.orders = s.orders := by
  cases sc with
  | newLimitOrder data => exact absurd rfl (hsc data)
  | cancelLimitOrder orderId => exact (Still.cancelOrder orderId s).orders
  | offerTimeout offerId date => exact handleOfferTimeout_orders offerId
  | commitmentProof p =>
    exact (Still.seq Still.read (fun _ => Still.handleCommitmentProof _ p) s).orders
  | cancellationProof p =>
    have hcall (offer : Option OfferRef) : Moves Still (handleCancellationProof offer) :=
      Still.callOffer? offer nofun
    exact (Still.seq Still.read (fun _ => hcall _) s).orders
  | takerCall offerId initiator p => exact (Still.handleTakerCall offerId initiator p s).orders
  | offerPublished e => exact handleOfferPublished_orders e
  | transferReceived e => exact (Still.handleTransferReceived e s).orders
  | channelStatus raw => rfl
  | makeChannel partner token deposit => rfl

end

/-- The amount of a new order adds up with those that it is matched with. -/
def Node.AddsUp (env : Env) (s : Node) : StateChange → Prop
  | .newLimitOrder data => (LimitOrder.fromDict env data).AddsUp s.offerBook
  | _ => True

instance (env : Env) (s : Node) (sc : StateChange) : Decidable (s.AddsUp env sc) :=
  match sc with
  | .newLimitOrder _ => inferInstanceAs (Decidable (LimitOrder.AddsUp ..))
  | .cancelLimitOrder _ | .offerTimeout .. | .commitmentProof _ | .cancellationProof _
  | .takerCall .. | .offerPublished _ | .transferReceived _ | .channelStatus _
  | .makeChannel .. => .isTrue trivial

def App.AddsUp (a : App) : App.Input → Prop
  | .handle env => a.running = true → ∀ sc ∈ a.stateChanges.head?, a.node.AddsUp env sc
  | _ => True

instance (a : App) (i : App.Input) : Decidable (a.AddsUp i) :=
  match i with
  | .handle _ => inferInstanceAs (Decidable (_ → ∀ _ ∈ _, _))
  | .postLimitOrder .. | .deleteLimitOrder .. | .makeChannel .. | .commitmentProof _
  | .cancellationProof _ | .broadcast _ | .provenOffer _ | .payment _ | .channelStatus _ | .timer _
  | .startListener | .serveCommitmentService _ | .serveRaidenListener => .isTrue trivial

/-- What is known of the orders in every state. -/
structure OrdersInv (a : App) : Prop where
  funded : ∀ id order, a.node.orders.lookup id = some order → Funded a.node order
  modelled : a.running = true → ∀ id order, a.node.orders.lookup id = some order →
    Modelled a.node order
  queued : ∀ data, .newLimitOrder data ∈ a.stateChanges → data.amount.le (.int 0) = false

section

variable {C : Crypto} {a : App} {i : App.Input} {env : Env} {s : Node}

/-- An amount that is not positive is refused before the order is queued. -/
theorem queued_step (h : ∀ data, .newLimitOrder data ∈ a.stateChanges →
      data.amount.le (.int 0) = false) :
    ∀ data, .newLimitOrder data ∈ (a.step C i).stateChanges →
      data.amount.le (.int 0) = false := by
  intro data hmem
  rcases App.stateChanges_step hmem with hold | ⟨uuid, orderType, amount, price, rfl, rfl⟩
  · exact h data hold
  by_cases hle : amount.le (.int 0) = true
  · rw [App.step, App.postLimitOrder, if_pos (by simp [hle])] at hmem
    exact h _ hmem
  · exact eq_false_of_ne_true hle

theorem funded_processOrder {order : LimitOrder} (hempty : order.correspondingOffers = [])
    (hpos : order.amount.le (.int 0) = false) (hadds : order.AddsUp s.offerBook)
    (hadv : s.Advances ((processOrder env order).run s).state)
    (h : ∀ id known, s.orders.lookup id = some known → Funded s known) :
    ∀ id known, ((processOrder env order).run s).state.orders.lookup id = some known →
      Funded ((processOrder env order).run s).state known := by
  intro id known hlookup
  by_cases hid : id = order.orderId
  · obtain ⟨as, hfunds, placed, horder, hknown, hamounts⟩ :=
      processOrder_carries env hempty hpos hadds
    rw [hid, horder] at hlookup
    cases hlookup
    exact ⟨hknown, hfunds.subperm hamounts⟩
  · rw [processOrder_others hid] at hlookup
    exact (h id known hlookup).advances hadv

theorem modelled_processOrder {order : LimitOrder} (hempty : order.correspondingOffers = [])
    (hreturns : ((processOrder env order).run s).returned = true)
    (hadv : s.Advances ((processOrder env order).run s).state)
    (h : ∀ id known, s.orders.lookup id = some known → Modelled s known) :
    ∀ id known, ((processOrder env order).run s).state.orders.lookup id = some known →
      Modelled ((processOrder env order).run s).state known := by
  intro id known hlookup
  by_cases hid : id = order.orderId
  · cases hrun : (processOrder env order).run s with
    | error err t =>
      rw [hrun] at hreturns
      cases hreturns
    | ok u t =>
      obtain ⟨placed, horder, hmodels⟩ := processOrder_modelled hempty hrun
      rw [hid, hrun, EStateM.Result.state_ok, horder] at hlookup
      cases hlookup
      exact hmodels
  · rw [processOrder_others hid] at hlookup
    exact (h id known hlookup).advances hadv

/-- The part of `OrdersInv` that is about the node. -/
structure OrdersKnown (s : Node) (running : Bool) : Prop where
  funded : ∀ id order, s.orders.lookup id = some order → Funded s order
  modelled : running = true → ∀ id order, s.orders.lookup id = some order → Modelled s order

/-- Where the orders stay, their offers only go on. -/
theorem OrdersKnown.advances {t : Node} {running goesOn : Bool} (h : OrdersKnown s running)
    (horders : t.orders = s.orders) (hrunning : goesOn = true → running = true)
    (hadv : s.Advances t) : OrdersKnown t goesOn where
  funded := by
    intro id order hlookup
    rw [horders] at hlookup
    exact (h.funded id order hlookup).advances hadv
  modelled := by
    intro hgoesOn id order hlookup
    rw [horders] at hlookup
    exact (h.modelled (hrunning hgoesOn) id order hlookup).advances hadv

theorem OrdersKnown.of_processOrder {order : LimitOrder} (h : OrdersKnown s true)
    (hempty : order.correspondingOffers = []) (hpos : order.amount.le (.int 0) = false)
    (hadds : order.AddsUp s.offerBook)
    (hadv : s.Advances ((processOrder env order).run s).state) :
    OrdersKnown ((processOrder env order).run s).state
      ((processOrder env order).run s).returned where
  funded := funded_processOrder hempty hpos hadds hadv h.funded
  modelled hreturns := modelled_processOrder hempty hreturns hadv (h.modelled rfl)

theorem OrdersInv.init (market : TokenPair) (commitmentServiceAddress : Address) :
    OrdersInv (.init market commitmentServiceAddress) where
  funded id order h := by cases h
  modelled _ id order h := by cases h
  queued data h := by cases h

theorem OrdersInv.known (hinv : OrdersInv a) : OrdersKnown a.node a.running :=
  ⟨hinv.funded, hinv.modelled⟩

theorem ordersKnown_step (hinv : OrdersInv a) (hi : a.AddsUp i) :
    OrdersKnown (a.step C i).node (a.step C i).running := by
  have hadv : a.node.Advances (a.step C i).node := (GoesOn.step C a i).advances
  by_cases hhandle : ∃ env, i = .handle env
  swap
  · obtain ⟨⟨timers, hnode⟩, hrun⟩ := App.step_node (C := C) (a := a) fun env h => hhandle ⟨env, h⟩
    apply hinv.known.advances _ _ hadv
    · rw [hnode]
    · rw [hrun]
      exact id
  obtain ⟨env, rfl⟩ := hhandle
  rcases App.handle_cases a env with ⟨heq, -⟩ | ⟨sc, rest, hrunning, hq⟩
  · rw [App.step, heq]
    exact hinv.known
  -- only a new order changes the orders
  by_cases hsc : ∃ data, sc = .newLimitOrder data
  · obtain ⟨data, rfl⟩ := hsc
    have hadds := hi hrunning (.newLimitOrder data) (by rw [hq]; rfl)
    have hpos := hinv.queued data (by rw [hq]; exact List.mem_cons_self)
    have hknown : OrdersKnown a.node true := hrunning ▸ hinv.known
    rw [App.step, App.handle_cons hrunning hq] at hadv ⊢
    exact hknown.of_processOrder rfl hpos hadds hadv
  · apply hinv.known.advances _ (fun _ => hrunning) hadv
    rw [App.step, App.handle_cons hrunning hq]
    exact handled_orders fun data h => hsc ⟨data, h⟩

theorem OrdersInv.step (hinv : OrdersInv a) (hi : a.AddsUp i) : OrdersInv (a.step C i) := by
  have hknown := ordersKnown_step (C := C) hinv hi
  exact ⟨hknown.funded, hknown.modelled, queued_step hinv.queued⟩

end

/-! ## Orders that are completed -/

instance (s : Node) (e : PaymentReceivedEvent) (r : OfferRef) : Decidable (s.Completes e r) :=
  inferInstanceAs (Decidable (∃ _ ∈ _, _ ∧ ∃ _ ∈ _, _))

/-- One of the offers is open, or none is completed. -/
def LimitOrder.Unfinished (order : LimitOrder) (s : Node) : Prop :=
  (∃ x ∈ order.correspondingOffers, ∃ o ∈ s.offers[x.2]?, o.state.status = .open_) ∨
    ∀ x ∈ order.correspondingOffers, ∀ o ∈ s.offers[x.2]?, o.state ≠ .completed

instance (order : LimitOrder) (s : Node) : Decidable (order.Unfinished s) :=
  inferInstanceAs (Decidable ((∃ _ ∈ _, ∃ _ ∈ _, _) ∨ ∀ _ ∈ _, ∀ _ ∈ _, _))

/-- A payment completes offers of an order only while it is unfinished. -/
def LimitOrder.Allows (order : LimitOrder) (s : Node) : StateChange → Prop
  | .transferReceived e => (∃ x ∈ order.correspondingOffers, s.Completes e x.2) →
      order.Unfinished s
  | _ => True

instance (order : LimitOrder) (s : Node) (sc : StateChange) : Decidable (order.Allows s sc) :=
  match sc with
  | .transferReceived _ => inferInstanceAs (Decidable ((∃ _ ∈ _, _) → _))
  | .newLimitOrder _ | .cancelLimitOrder _ | .offerTimeout .. | .commitmentProof _
  | .cancellationProof _ | .takerCall .. | .offerPublished _ | .channelStatus _
  | .makeChannel .. => .isTrue trivial

def App.Allows (order : LimitOrder) (a : App) : App.Input → Prop
  | .handle _ => a.running = true → ∀ sc ∈ a.stateChanges.head?, order.Allows a.node sc
  | _ => True

instance (order : LimitOrder) (a : App) (i : App.Input) : Decidable (App.Allows order a i) :=
  match i with
  | .handle _ => inferInstanceAs (Decidable (_ → ∀ _ ∈ _, _))
  | .postLimitOrder .. | .deleteLimitOrder .. | .makeChannel .. | .commitmentProof _
  | .cancellationProof _ | .broadcast _ | .provenOffer _ | .payment _ | .channelStatus _ | .timer _
  | .startListener | .serveCommitmentService _ | .serveRaidenListener => .isTrue trivial

section

variable {C : Crypto} {a : App} {i : App.Input} {order : LimitOrder} {s : Node}

theorem not_unfinished_iff (hmodel : Modelled s order) :
    ¬ order.Unfinished s ↔ order.completed s = .ok true := by
  unfold LimitOrder.Unfinished
  rw [completed_eq_true, not_or, not_exists, not_forall]
  constructor
  · rintro ⟨hclosed, x, hsome⟩
    simp only [not_forall, not_not] at hsome
    obtain ⟨hx, o, ho, hstate⟩ := hsome
    refine ⟨fun y hy => ?_, x, hx, o, ho, hstate⟩
    obtain ⟨o', ho', hmodel'⟩ := hmodel y hy
    exact ⟨o', ho', hmodel', fun hopen => hclosed y ⟨hy, o', ho', hopen⟩⟩
  · rintro ⟨hclosed, x, hx, o, ho, hstate⟩
    refine ⟨?_, x, fun h => h hx o ho hstate⟩
    rintro y ⟨hy, o', ho', hopen⟩
    obtain ⟨o₁, ho₁, -, hne⟩ := hclosed y hy
    cases ho₁.symm.trans ho'
    exact hne hopen

/-- In a step that the order allows, a completed order stays as it is. -/
theorem progress_step (hfunded : Funded a.node order) (hi : a.Allows order i) :
    order.Progress a.node (a.step C i).node := by
  refine hfunded.progress (GoesOn.step C a i) ?_
  intro hc
  rcases App.step_cases C a i with ⟨hquiet, -⟩ | ⟨env, sc, rest, rfl, hrunning, hq, hnode, -⟩
  · unfold Node.tradedAmounts Node.tradedAmount?
    rw [hquiet.offers]
  have hallows : order.Allows a.node sc := hi hrunning sc (by rw [hq]; rfl)
  refine List.filterMap_congr ?_
  intro x hx
  rcases (GoesOn.step C a (.handle env)).tradedAmount? x.2 with hnone | heq
  swap
  · exact heq.symm
  rw [hnone, hnode]
  -- an offer that is completed now completes an order that is not finished
  unfold Node.tradedAmount?
  cases ho' : ((handleStateChange env sc).run a.node).state.offers[x.2]? with
  | none => rfl
  | some o' =>
    rw [Option.bind_some]
    refine if_neg ?_
    intro hstate
    rcases completed_handled ho' hstate with ho | ⟨e, rfl, hcompletes⟩
    · rw [Node.tradedAmount?, ho, Option.bind_some, if_pos hstate] at hnone
      cases hnone
    · exact (not_unfinished_iff (completed_modelled hc)).mpr hc (hallows ⟨x, hx, hcompletes⟩)

/-- In any other step it does not. -/
theorem progress_breaks (hfunded : Funded a.node order)
    (hmodel : a.running = true → Modelled a.node order) (hi : ¬ a.Allows order i) :
    ¬ order.Progress a.node (a.step C i).node := by
  intro hprogress
  have hgoes := GoesOn.step C a i
  cases i with
  | handle env =>
    obtain ⟨hrunning, sc, hsc, hnot⟩ : a.running = true ∧ ∃ sc ∈ a.stateChanges.head?,
        ¬ order.Allows a.node sc := by
      simpa [App.Allows] using hi
    cases sc with
    | transferReceived e =>
      obtain ⟨⟨x, hx, hcompletes⟩, hfinished⟩ := Classical.not_imp.mp hnot
      have hc := (not_unfinished_iff (hmodel hrunning)).mp hfinished
      obtain ⟨⟨o, ho, hstate⟩, o', ho', hstate'⟩ := hcompletes.completed env
      obtain ⟨rest, hq⟩ := List.head?_eq_some_iff.mp hsc
      have hnode : (a.step C (.handle env)).node =
          ((handleStateChange env (.transferReceived e)).run a.node).state := by
        rw [App.step, App.handle_cons hrunning hq]
        rfl
      refine hfunded.amountTraded_ne (hmodel hrunning) hgoes hx (b := o'.baseAmount) ?_ ?_
        (hprogress.final hc).2
      · rw [Node.tradedAmount?, ho, Option.bind_some, if_neg hstate]
      · rw [Node.tradedAmount?, hnode, ho', Option.bind_some, if_pos hstate']
    | _ => exact hnot trivial
  | _ => exact hi trivial

end

/-- In every run the traded amount of an order can be read as long as the node runs, and the order
progresses from each state to all later ones exactly when no payment completes one of its offers
while another one is completed and none is open. -/
theorem progress_iff (C : Crypto) (market : TokenPair) (commitmentServiceAddress : Address)
    (is js : List App.Input)
    (hadds : LTS.AllSteps (App.step C) App.AddsUp (.init market commitmentServiceAddress) is)
    (id : Nat) (order : LimitOrder)
    (horder : (App.run C market commitmentServiceAddress is).node.orders.lookup id = some order) :
    (∀ h, h <+: js → (App.run C market commitmentServiceAddress (is ++ h)).running = true →
      ∃ p, order.amountTraded (App.run C market commitmentServiceAddress (is ++ h)).node = .ok p) ∧
    ((∀ h, h <+: js → ∀ pre, pre <+: h →
        order.Progress (App.run C market commitmentServiceAddress (is ++ pre)).node
          (App.run C market commitmentServiceAddress (is ++ h)).node) ↔
      LTS.AllSteps (App.step C) (App.Allows order)
        (App.run C market commitmentServiceAddress is) js) := by
  have hinv := LTS.run_invariant_of_guard (App.step C) App.AddsUp (fun _ a => OrdersInv a)
    (OrdersInv.init market commitmentServiceAddress) (fun _ _ _ hinv hi => hinv.step hi) is hadds
  let I (a : App) : Prop := Funded a.node order ∧ (a.running = true → Modelled a.node order)
  have hinit : I (App.run C market commitmentServiceAddress is) :=
    ⟨hinv.funded id order horder, fun hrun => hinv.modelled hrun id order horder⟩
  have hstep (a : App) (i : App.Input) (h : I a) : I (a.step C i) := by
    have hadv := (GoesOn.step C a i).advances
    refine ⟨h.1.advances hadv, fun hrun => (h.2 ?_).advances hadv⟩
    rcases App.step_cases C a i with ⟨-, hsame⟩ | ⟨-, -, -, -, hrunning, -⟩
    · exact hsame ▸ hrun
    · exact hrunning
  have hrun (h : List App.Input) : App.run C market commitmentServiceAddress (is ++ h) =
      LTS.run (App.step C) (App.run C market commitmentServiceAddress is) h :=
    LTS.run_append _ is h
  simp only [hrun]
  generalize App.run C market commitmentServiceAddress is = a₀ at hinit ⊢
  constructor
  · intro h _ hrunning
    have hreach := LTS.run_invariant (App.step C) (fun _ a => I a) hinit
      (fun _ a i hI => hstep a i hI) h
    obtain ⟨p, hp, -⟩ := hreach.1.amountTraded (hreach.2 hrunning)
    exact ⟨p, hp⟩
  let P (h : List App.Input) (a : App) : Prop := a = LTS.run (App.step C) a₀ h ∧
    ∀ pre, pre <+: h → order.Progress (LTS.run (App.step C) a₀ pre).node a.node
  have hP : P [] a₀ := by
    refine ⟨rfl, ?_⟩
    intro pre hpre
    rw [List.prefix_nil.mp hpre]
    exact hinit.1.progress (.of_eq rfl) fun _ => rfl
  have hkeep (h : List App.Input) (a : App) (i : App.Input) (hI : I a) (hprogress : P h a)
      (hi : a.Allows order i) : P (h ++ [i]) (a.step C i) := by
    obtain ⟨ha, hprogress⟩ := hprogress
    have hnext := progress_step (C := C) hI.1 hi
    refine ⟨by rw [ha, LTS.run_concat], ?_⟩
    intro pre hpre
    rcases List.prefix_concat_iff.mp hpre with rfl | hpre
    · rw [LTS.run_concat, ← ha]
      exact (hstep a i hI).1.progress (.of_eq rfl) fun _ => rfl
    · exact (hprogress pre hpre).trans hnext
  have hbreak (h : List App.Input) (a : App) (i : App.Input) (hI : I a) (hprogress : P h a)
      (hi : ¬ a.Allows order i) : ¬ P (h ++ [i]) (a.step C i) := by
    rintro ⟨-, hlater⟩
    have hlast := hlater h (List.prefix_append _ _)
    rw [← hprogress.1] at hlast
    exact progress_breaks hI.1 hI.2 hi hlast
  rw [← LTS.prefixes_iff_allSteps (P := P) hinit hstep hP hkeep hbreak js]
  exact forall₂_congr fun h _ => (and_iff_right rfl).symm

/-- The commitment to the offer at `offerId` is proved by the commitment service at `9`. -/
def proofOf (offerId : Nat) : CommitmentProof :=
  { commitmentSig := none, secret := 3, secretHash := 3, offerId := offerId, signature := some 9 }

/-- The address offers `5` for `5`. -/
def offering (offerId : Nat) (initiator : Signature) : List App.Input :=
  [.broadcast { offer := { offerId := offerId, askToken := 1, askAmount := 5, bidToken := 2,
                           bidAmount := 5, timeout := 100 },
                commitmentProof := proofOf offerId, signature := some initiator },
   .handle { now := 0, orderUuid := 1, offerUuid := 2 }]

def proving (offerId : Nat) : List App.Input :=
  [.commitmentProof (proofOf offerId), .handle { now := 0, orderUuid := 1, offerUuid := 2 },
   .serveRaidenListener]

def paying (initiator : Address) (offerId : Nat) : List App.Input :=
  [.payment { initiator := initiator, amount := .int 5, identifier := offerId },
   .serveRaidenListener, .handle { now := 0, orderUuid := 1, offerUuid := 2 },
   .serveCommitmentService 0, .serveRaidenListener]

/-- An order for `10` takes the offers of two addresses. -/
def twoTaken : List App.Input :=
  offering 7 4 ++ offering 8 5 ++
    [.postLimitOrder 3 "SELL" (.int 10) (Float.Model.ofInt 1),
     .handle { now := 0, orderUuid := 1, offerUuid := 2 },
     .serveCommitmentService 0, .serveCommitmentService 0, .serveRaidenListener]

/-- Both makers pay, and the commitment service executes the first exchange. -/
def oneExecuted : List App.Input :=
  proving 7 ++ proving 8 ++ paying 4 7 ++ paying 5 8 ++ paying 9 7

def twoTakenOrder : LimitOrder where
  orderId := 3
  orderType := .sell
  amount := .int 10
  price := Float.Model.ofInt 1
  lifetime := 60
  correspondingOffers := [(7, 0), (8, 1)]

theorem one_executed_progress : twoTakenOrder.Progress
    (App.run .plain { baseToken := 1, quoteToken := 2 } 9 (twoTaken ++ [])).node
    (App.run .plain { baseToken := 1, quoteToken := 2 } 9 (twoTaken ++ oneExecuted)).node :=
  (progress_iff .plain { baseToken := 1, quoteToken := 2 } 9 twoTaken oneExecuted
    (by decide +kernel) 3 twoTakenOrder rfl).2.mpr (by decide +kernel) oneExecuted
    (List.prefix_refl _) [] (List.nil_prefix)

/-- The order is completed with `5` traded, and when the second exchange is executed it is `10`. -/
theorem completed_order_trades :
    (App.run .plain { baseToken := 1, quoteToken := 2 } 9 twoTaken).node.orders.lookup 3 =
      some twoTakenOrder ∧
    twoTakenOrder.completed
      (App.run .plain { baseToken := 1, quoteToken := 2 } 9 (twoTaken ++ oneExecuted)).node =
        .ok true ∧
    twoTakenOrder.amountTraded
      (App.run .plain { baseToken := 1, quoteToken := 2 } 9 (twoTaken ++ oneExecuted)).node =
        .ok (.int 5) ∧
    twoTakenOrder.amountTraded
      (App.run .plain { baseToken := 1, quoteToken := 2 } 9
        (twoTaken ++ oneExecuted ++ paying 9 8)).node = .ok (.int 10) := by
  decide +kernel

end RaidexNode
end Raidex
