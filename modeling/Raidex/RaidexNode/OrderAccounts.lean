import Raidex.RaidexNode.FloatPrices
import Raidex.RaidexNode.Matching
import Raidex.RaidexNode.Survival
import Raidex.RaidexNode.Takes
import Raidex.RaidexNode.Withdrawal

/-!
# Raidex.RaidexNode.OrderAccounts

What an order has become when `process_order` returns.

* `Part`: an entry that the order takes, or the offer for its rest.
* `Launches`: the step that makes an offer of a part; `takeOffer` and `offerRest` are such steps.
* `Filed`: the offers of the order are those of its parts, each managed, committed to and timed.
  `processOrder_filed` is the induction on the parts.
* `order_accounted`: the order is accounted for. With a `float` for its amount, it is as far as
  subtraction does not round.
-/

namespace Raidex
namespace RaidexNode

/-! ## Parts of an order -/

inductive Part where
  | taken (e : OfferBookEntry)
  | rest (o : BasicOffer Number)

namespace Part

def offer : Part → BasicOffer Number
  | taken e => e.takeOffer
  | rest o => o

def traderRole : Part → TraderRole
  | taken _ => .taker
  | rest _ => .maker

/-- The offer object of the part, once it is initiated. -/
def initiated (p : Part) : Offer := (Offer.new p.offer p.traderRole true).enter .openUnproved {}

end Part

/-- The parts of an order that is processed with this book. -/
def LimitOrder.parts (order : LimitOrder) (env : Env) (book : OfferBook) :
    Except PyError (List Part) := do
  let x ← matchLimit book order.price order.orderType order.amount
  if x.2.positive then return x.1.map .taken ++ [.rest (← order.makeOffer env x.2)]
  else return x.1.map .taken

/-- The offer at `r` is that of the part, and everything that belongs to it is there. -/
structure Launched (s : Node) (offerId : Nat) (r : OfferRef) (p : Part) : Prop where
  named : p.offer.offerId = offerId
  offer : s.offers[r]? = some p.initiated
  managed : s.getOffer offerId = some r
  committed : s.events.countP (commits r) = 1
  timed : s.isStillAlive offerId = true
  matched : ∀ e, p = .taken e → s.matchesById.lookup offerId = some (takerMatch r e)

/-- The offers of the order in the node are those of the parts. -/
def Filed (s : Node) (order : LimitOrder) (parts : List Part) : Prop :=
  ∃ placed, s.orders.lookup order.orderId = some { order with correspondingOffers := placed } ∧
    List.Forall₂ (fun x p => Launched s x.1 x.2 p) placed parts

/-! ## Launching an offer -/

/-- A new offer object for the part is filed with the order. -/
structure Launches (orderId : Nat) (p : Part) (s s' : Node) : Prop where
  offers : s'.offers = s.offers ++ [p.initiated]
  offerManager : s'.offerManager = s.offerManager.insert p.offer.offerId s.nextOffer
  events : s'.events = s.events ++ [.commitmentService (.commit s.nextOffer)]
  alive : s'.isStillAlive p.offer.offerId = true
  timers : ∀ id, id ≠ p.offer.offerId → s'.isStillAlive id = s.isStillAlive id
  matched : ∀ e, p = .taken e →
    s'.matchesById.lookup e.offerId = some (takerMatch s.nextOffer e)
  others : ∀ id, id ≠ p.offer.offerId → s'.matchesById.lookup id = s.matchesById.lookup id
  placed : ∀ order, s.orders.lookup orderId = some order → s'.orders.lookup orderId = some
    { order with
      correspondingOffers := setItem p.offer.offerId s.nextOffer order.correspondingOffers }

section

variable {s s' : Node} {env : Env} {orderId : Nat} {e : OfferBookEntry} {o : BasicOffer Number}

theorem lookup_updateOrder {f : LimitOrder → LimitOrder} {order : LimitOrder}
    (h : s.orders.lookup orderId = some order) :
    (s.updateOrder orderId f).orders.lookup orderId = some (f order) := by
  unfold Node.updateOrder
  rw [h]
  exact AList.lookup_insert _

/-- The timers after one has been started in the place of another. -/
theorem isStillAlive_restarted {offerId date : Nat} {lifetime : Int}
    (h : s'.timeoutGreenlets = (s.timeoutGreenlets.erase offerId).insert offerId
      { timeoutDate := date, lifetime, dead := false }) (id : Nat) :
    s'.isStillAlive id = (id = offerId || s.isStillAlive id) := by
  unfold Node.isStillAlive
  rw [h]
  by_cases hid : id = offerId
  · subst hid
    simp
  · simp [AList.lookup_insert_ne hid, AList.lookup_erase_ne hid, hid]

theorem takeOffer_launches (h : (takeOffer env orderId e).run s = .ok () s') :
    Launches orderId (.taken e) s s' := by
  obtain ⟨hcan, book, rfl, -⟩ := takeOffer_returned h
  have halive (id : Nat) : (s.initiated env orderId e).isStillAlive id =
      (id = e.offerId || s.isStillAlive id) :=
    isStillAlive_restarted initiated_timeoutGreenlets id
  have hmatches : (s.initiated env orderId e).matchesById =
      s.matchesById.insert e.offerId (takerMatch s.nextOffer e) := updateOrder_matchesById ..
  have hevents : (s.registered env orderId e).events = s.events := updateOrder_events ..
  constructor
  · exact initiated_offers
  · exact updateOrder_offerManager ..
  · exact congrArg (· ++ _) hevents
  · exact (halive _).trans (by simp [Part.offer, OfferBookEntry.takeOffer, OfferBookEntry.offerId])
  · intro id hid
    refine (halive id).trans ?_
    rw [decide_eq_false (show id ≠ e.offerId from hid), Bool.false_or]
  · rintro _ ⟨⟩
    exact hmatches ▸ AList.lookup_insert _
  · intro id hid
    exact hmatches ▸ AList.lookup_insert_ne hid
  · exact fun order horder => lookup_updateOrder horder

theorem offerRest_launches {order : LimitOrder} {amountLeft : Number}
    (ho : order.makeOffer env amountLeft = .ok o)
    (h : (offerRest env order amountLeft).run s = .ok () s') :
    Launches order.orderId (.rest o) s s' := by
  obtain ⟨o', ho', hcan⟩ := offerRest_returns_iff.mp (EStateM.returns_of_ok h)
  cases ho.symm.trans ho'
  rw [offerRest_ok ho hcan] at h
  cases h
  have halive (id : Nat) : (s.offered env order.orderId o).isStillAlive id =
      (id = o.offerId || s.isStillAlive id) :=
    isStillAlive_restarted (updateOrder_timeoutGreenlets ..) id
  have hoffers : (s.offered env order.orderId o).offers =
      s.offers ++ [.new o .maker (!s.hasEqualModel o)] := updateOrder_offers ..
  have hmatches : (s.offered env order.orderId o).matchesById = s.matchesById :=
    updateOrder_matchesById ..
  have hevents : (s.offered env order.orderId o).events = s.events := updateOrder_events ..
  constructor
  · simp [Node.entered, hoffers, Node.nextOffer, Part.initiated, Part.offer, Part.traderRole]
  · exact updateOrder_offerManager ..
  · exact congrArg (· ++ _) hevents
  · exact (halive _).trans (by simp [Part.offer])
  · intro id hid
    refine (halive id).trans ?_
    rw [decide_eq_false (show id ≠ o.offerId from hid), Bool.false_or]
  · rintro _ ⟨⟩
  · exact fun id _ => hmatches ▸ rfl
  · exact fun order horder => lookup_updateOrder horder

end

/-! ## Filing the parts of an order -/

/-- No commitment to an offer that does not exist yet has been dispatched. -/
def Unspent (s : Node) : Prop := ∀ r, s.offers.length ≤ r → s.events.countP (commits r) = 0

theorem Counted.unspentFrom {s : Node} (hs : Counted commits OfferState.initiated s) :
    Unspent s := by
  intro r hr
  refine hs.unspent r ?_
  intro o ho
  rw [List.getElem?_eq_none hr] at ho
  cases ho

section

variable {s s' : Node} {env : Env} {order : LimitOrder} {orderId : Nat} {p q : Part}
  {parts : List Part}

theorem Launches.unspent (hl : Launches orderId p s s') (hs : Unspent s) : Unspent s' := by
  intro r hr
  rw [hl.offers, List.length_append, List.length_singleton] at hr
  have hne : s.nextOffer ≠ r := Nat.ne_of_lt hr
  rw [hl.events, List.countP_append, hs r (Nat.le_of_succ_le hr)]
  simp [commits, hne]

/-- The offer that is launched. -/
theorem Launches.launched (hl : Launches orderId p s s') (hs : Unspent s) :
    Launched s' p.offer.offerId s.nextOffer p where
  named := rfl
  offer := by rw [hl.offers]; exact List.getElem?_concat_length
  managed := by
    unfold Node.getOffer
    rw [hl.offerManager]
    exact AList.lookup_insert _
  committed := by
    rw [hl.events, List.countP_append, hs s.nextOffer le_rfl]
    simp [commits]
  timed := hl.alive
  matched := by
    rintro e rfl
    exact hl.matched e rfl

/-- Launching another offer leaves those that are launched. -/
theorem Launched.launch {offerId : Nat} {r : OfferRef} (h : Launched s offerId r q)
    (hl : Launches orderId p s s') (hne : offerId ≠ p.offer.offerId) : Launched s' offerId r q := by
  have hr : r < s.offers.length := (List.getElem?_eq_some_iff.mp h.offer).1
  constructor
  · exact h.named
  · rw [hl.offers, List.getElem?_append_left hr]
    exact h.offer
  · unfold Node.getOffer
    rw [hl.offerManager, AList.lookup_insert_ne hne]
    exact h.managed
  · have hother : s.nextOffer ≠ r := (Nat.ne_of_lt hr).symm
    rw [hl.events, List.countP_append, h.committed]
    simp [commits, hother]
  · rw [hl.timers offerId hne]
    exact h.timed
  · intro e he
    rw [hl.others offerId hne]
    exact h.matched e he

theorem setItem_new {key : Nat} {value : OfferRef} {l : List (Nat × OfferRef)}
    (h : key ∉ l.map Prod.fst) : setItem key value l = l ++ [(key, value)] := by
  induction l with
  | nil => rfl
  | cons x l ih =>
    rw [List.map_cons, List.mem_cons, not_or] at h
    rw [setItem, if_neg (Ne.symm h.1), ih h.2]
    rfl

theorem map_fst_launched {placed : List (Nat × OfferRef)}
    (h : List.Forall₂ (fun x p => Launched s x.1 x.2 p) placed parts) :
    placed.map Prod.fst = parts.map fun q => q.offer.offerId := by
  induction h with
  | nil => rfl
  | cons hx _ ih => rw [List.map_cons, List.map_cons, ih, hx.named]

theorem forall_launched {placed : List (Nat × OfferRef)}
    (h : List.Forall₂ (fun x p => Launched s x.1 x.2 p) placed parts)
    (hl : Launches orderId p s s') (hnew : p.offer.offerId ∉ parts.map fun q => q.offer.offerId) :
    List.Forall₂ (fun x p => Launched s' x.1 x.2 p) placed parts := by
  induction h with
  | nil => exact .nil
  | cons hx _ ih =>
    rw [List.map_cons, List.mem_cons, not_or, hx.named] at hnew
    exact .cons (hx.launch hl (Ne.symm hnew.1)) (ih hnew.2)

/-- An offer that is launched under a new id is filed after the others. -/
theorem Filed.launch (h : Filed s order parts) (hs : Unspent s)
    (hl : Launches order.orderId p s s')
    (hnew : p.offer.offerId ∉ parts.map fun q => q.offer.offerId) :
    Filed s' order (parts ++ [p]) := by
  obtain ⟨placed, horder, hplaced⟩ := h
  refine ⟨placed ++ [(p.offer.offerId, s.nextOffer)], ?_, ?_⟩
  · rw [hl.placed _ horder]
    exact congrArg (fun l => some { order with correspondingOffers := l })
      (setItem_new (map_fst_launched hplaced ▸ hnew))
  · exact List.rel_append (forall_launched hplaced hl hnew) (.cons (hl.launched hs) .nil)

theorem takeOffers_filed {es : List OfferBookEntry} (h : Filed s order parts) (hs : Unspent s)
    (hnodup : (es.map OfferBookEntry.offerId).Nodup)
    (hnew : ∀ e ∈ es, e.offerId ∉ parts.map fun q => q.offer.offerId)
    (hrun : (takeOffers env order.orderId es).run s = .ok () s') :
    Filed s' order (parts ++ es.map .taken) ∧ Unspent s' := by
  induction es generalizing s parts with
  | nil =>
    cases hrun
    exact ⟨by rwa [List.map_nil, List.append_nil], hs⟩
  | cons e es ih =>
    obtain ⟨_, s₁, hone, hrun⟩ := EStateM.run_bind_eq_ok.mp hrun
    rw [List.map_cons, List.nodup_cons] at hnodup
    have hl := takeOffer_launches hone
    have := ih (h.launch hs hl (hnew e (List.mem_cons_self ..))) (hl.unspent hs) hnodup.2 ?_ hrun
    · rwa [List.append_assoc] at this
    · intro e' he'
      rw [List.map_append, List.mem_append, List.map_singleton, List.mem_singleton, not_or]
      refine ⟨hnew e' (List.mem_cons_of_mem _ he'), fun heq => hnodup.1 ?_⟩
      rw [show e.offerId = e'.offerId from heq.symm]
      exact List.mem_map_of_mem he'

/-- The parts of an order, from what it is matched with. -/
theorem LimitOrder.parts_eq_ok {book : OfferBook} {taken : List OfferBookEntry} {rest : Number}
    (h : matchLimit book order.price order.orderType order.amount = .ok (taken, rest)) :
    order.parts env book = .ok parts ↔
      if rest.positive then
        ∃ o, order.makeOffer env rest = .ok o ∧ parts = taken.map .taken ++ [.rest o]
      else parts = taken.map .taken := by
  unfold LimitOrder.parts
  rw [h]
  change (if rest.positive then _ else _) = _ ↔ _
  split
  · rw [Except.bind_eq_ok]
    exact exists_congr fun o => and_congr_right fun _ =>
      ⟨fun h => (Except.ok.inj h).symm, fun h => h ▸ rfl⟩
  · exact ⟨fun h => (Except.ok.inj h).symm, fun h => h ▸ rfl⟩

/-- With an `int` for its amount, the order is split as with `float` prices. -/
theorem LimitOrder.parts_offersOf {book : OfferBook} {a : Int} (ha : order.amount = .int a)
    (h : order.parts env book = .ok parts) : ∃ timeoutDate,
    Pricing.offersOf { orderType := order.orderType, amount := a, price := order.price } book.priced
      (createRandom32BytesId env.offerUuid) timeoutDate = .ok (parts.map Part.offer) := by
  have hmatch := matchLimit_int book order.price order.orderType a
  rw [LimitOrder.parts_eq_ok (by rw [ha]; exact hmatch), positive_int] at h
  unfold Pricing.offersOf
  simp only
  split
  next hpos =>
    rw [if_pos (decide_eq_true hpos)] at h
    obtain ⟨o, ho, rfl⟩ := h
    obtain ⟨f, hf, ho⟩ := Except.bind_eq_ok.mp ho
    obtain ⟨q, hq, ho⟩ := Except.bind_eq_ok.mp ho
    obtain ⟨d, -, ho⟩ := Except.bind_eq_ok.mp ho
    cases ho
    have hproduct : Pricing.product (Pricing.matchLimit book.priced order.price order.orderType a).2
        order.price = .ok q := Except.bind_eq_ok.mpr ⟨f, hf, hq⟩
    refine ⟨d, ?_⟩
    rw [Pricing.makeOffer, hproduct, List.map_append, List.map_map]
    rfl
  next hpos =>
    rw [if_neg (by simpa using hpos)] at h
    exact ⟨0, by rw [h, List.map_map]; rfl⟩

/-- When the processing of a new order returns, its parts are filed. -/
theorem processOrder_filed {taken : List OfferBookEntry} {rest : Number}
    (hempty : order.correspondingOffers = []) (hs : Unspent s)
    (hmatch : matchLimit s.offerBook order.price order.orderType order.amount = .ok (taken, rest))
    (hid : rest.positive = true →
      createRandom32BytesId env.offerUuid ∉ taken.map OfferBookEntry.offerId)
    (h : (processOrder env order).run s = .ok () s') :
    ∃ parts, order.parts env s.offerBook = .ok parts ∧ Filed s' order parts := by
  rw [processOrder_run hmatch] at h
  obtain ⟨_, s₁, hrun, h⟩ := EStateM.run_bind_eq_ok.mp h
  have hnone : Filed { s with orders := s.orders.insert order.orderId order } order [] := by
    refine ⟨[], ?_, .nil⟩
    rw [← hempty]
    exact AList.lookup_insert _
  obtain ⟨htaken, hunspent⟩ :=
    takeOffers_filed hnone hs (matchLimit_nodup hmatch) (fun _ _ => List.not_mem_nil) hrun
  rw [List.nil_append] at htaken
  cases hrest : rest.positive with
  | false =>
    rw [hrest] at h
    cases h
    exact ⟨_, (LimitOrder.parts_eq_ok hmatch).mpr (by rw [hrest]; rfl), htaken⟩
  | true =>
    rw [hrest, if_pos rfl] at h
    obtain ⟨o, ho, -⟩ := offerRest_returns_iff.mp (EStateM.returns_of_ok h)
    refine ⟨_, (LimitOrder.parts_eq_ok hmatch).mpr (by rw [hrest, if_pos rfl]; exact ⟨o, ho, rfl⟩),
      htaken.launch hunspent (offerRest_launches ho h) ?_⟩
    rw [List.map_map, show (Part.rest o).offer.offerId = _ from (LimitOrder.makeOffer_ok ho).1]
    exact hid hrest

end

theorem total_taken (es : List OfferBookEntry) :
    Number.total (es.map fun e => .int e.baseAmount) =
      some (es.map fun e => (e.baseAmount : ℚ)).sum := by
  induction es with
  | nil => rfl
  | cons e es ih => simp [Number.total, Number.exact, ih]

/-! ## The account of an order -/

/-- The offers of an order. -/
def Node.offersOf (s : Node) (order : LimitOrder) : List Offer :=
  order.correspondingOffers.filterMap fun x => s.offers[x.2]?

/-- The amounts that the offers of an order have when the entries are taken. -/
def amountsOf (taken : List OfferBookEntry) (rest : Number) : List Number :=
  taken.map (fun e => .int e.baseAmount) ++ if rest.positive then [rest] else []

structure Accounts (s : Node) (order : LimitOrder) (taken : List OfferBookEntry) (rest : Number) :
    Prop where
  amounts : (s.offersOf order).map (fun o => o.baseAmount) = amountsOf taken rest
  left : taken.foldlM (fun amountLeft e => amountLeft.subInt e.baseAmount) order.amount = .ok rest
  whole : Unrounded order.amount taken → ∀ q, order.amount.exact = some q → 0 < q →
    Number.total ((s.offersOf order).map fun o => o.baseAmount) = some q ∧
    (rest.positive = true ↔ (taken.map fun e => (e.baseAmount : ℚ)).sum ≠ q)
  integral : ∀ a, order.amount = .int a → Unrounded order.amount taken
  launched : ∀ x ∈ order.correspondingOffers, s.getOffer x.1 = some x.2 ∧
    (∃ o, s.offers[x.2]? = some o ∧ o.offerId = x.1 ∧ o.state ≠ .openCreated) ∧
    s.events.countP (commits x.2) = 1 ∧ s.isStillAlive x.1 = true
  matched : ∀ e ∈ taken, ∃ m r, s.matchesById.lookup e.offerId = some m ∧
    m.traderRole = .taker ∧ m.target = e.initiator ∧ m.offer = some r ∧
    (e.offerId, r) ∈ order.correspondingOffers
  made : (s.offersOf order).countP (fun o => o.traderRole = .maker) =
    if rest.positive then 1 else 0

section

variable {s s' : Node} {env : Env} {order : LimitOrder} {taken : List OfferBookEntry}
  {rest : Number} {parts : List Part} {placed : List (Nat × OfferRef)} {amountLeft : Number}
  {o : BasicOffer Number}

theorem LimitOrder.makeOffer_baseAmount (h : order.makeOffer env amountLeft = .ok o) :
    o.baseAmount = amountLeft := by
  obtain ⟨f, -, h⟩ := Except.bind_eq_ok.mp h
  obtain ⟨q, -, h⟩ := Except.bind_eq_ok.mp h
  obtain ⟨d, -, h⟩ := Except.bind_eq_ok.mp h
  cases h
  rfl

theorem filterMap_launched (h : List.Forall₂ (fun x p => Launched s x.1 x.2 p) placed parts) :
    placed.filterMap (fun x => s.offers[x.2]?) = parts.map Part.initiated := by
  induction h with
  | nil => rfl
  | cons hx _ ih => simp only [List.filterMap_cons, hx.offer, ih, List.map_cons]

theorem exists_launched (h : List.Forall₂ (fun x p => Launched s x.1 x.2 p) placed parts)
    {x : Nat × OfferRef} (hx : x ∈ placed) : ∃ p, Launched s x.1 x.2 p := by
  induction h with
  | nil => cases hx
  | cons hl _ ih =>
    rcases List.mem_cons.mp hx with rfl | hx
    · exact ⟨_, hl⟩
    · exact ih hx

theorem exists_placed (h : List.Forall₂ (fun x p => Launched s x.1 x.2 p) placed parts) {p : Part}
    (hp : p ∈ parts) : ∃ x ∈ placed, Launched s x.1 x.2 p := by
  induction h with
  | nil => cases hp
  | cons hl _ ih =>
    rcases List.mem_cons.mp hp with rfl | hp
    · exact ⟨_, List.mem_cons_self .., hl⟩
    · obtain ⟨x, hx, hl⟩ := ih hp
      exact ⟨x, List.mem_cons_of_mem _ hx, hl⟩

/-- The offer for the rest is the last part, if there is one. -/
theorem LimitOrder.parts_cases
    (hmatch : matchLimit s.offerBook order.price order.orderType order.amount = .ok (taken, rest))
    (h : order.parts env s.offerBook = .ok parts) :
    ∃ os : List (BasicOffer Number), parts = taken.map .taken ++ os.map .rest ∧
      os.map (fun o => o.baseAmount) = if rest.positive then [rest] else [] := by
  rw [LimitOrder.parts_eq_ok hmatch] at h
  split at h
  next hpos =>
    obtain ⟨o, ho, rfl⟩ := h
    exact ⟨[o], rfl, by rw [List.map_singleton, LimitOrder.makeOffer_baseAmount ho, if_pos hpos]⟩
  next hpos => exact ⟨[], by rw [h, List.map_nil, List.append_nil], (if_neg hpos).symm⟩

theorem Filed.accounts
    (hmatch : matchLimit s.offerBook order.price order.orderType order.amount = .ok (taken, rest))
    (hparts : order.parts env s.offerBook = .ok parts) (h : Filed s' order parts) :
    ∃ placed, s'.orders.lookup order.orderId = some { order with correspondingOffers := placed } ∧
      Accounts s' { order with correspondingOffers := placed } taken rest := by
  obtain ⟨placed, horder, hplaced⟩ := h
  obtain ⟨os, rfl, hos⟩ := LimitOrder.parts_cases hmatch hparts
  have hoffers : s'.offersOf { order with correspondingOffers := placed } =
      (taken.map Part.taken ++ os.map Part.rest).map Part.initiated := filterMap_launched hplaced
  have hamounts : (s'.offersOf { order with correspondingOffers := placed }).map
      (fun o => o.baseAmount) = amountsOf taken rest := by
    rw [hoffers, amountsOf, ← hos]
    simp only [List.map_append, List.map_map]
    rfl
  refine ⟨placed, horder, hamounts, takeFitting_left hmatch, ?_, ?_, ?_, ?_, ?_⟩
  · intro hexact q hq hpos
    obtain ⟨p, hp, hnonneg, hsum⟩ := takeFitting_exact hmatch hq hpos.le hexact
    have hrest : rest.positive = true ↔ (taken.map fun e => (e.baseAmount : ℚ)).sum ≠ q := by
      rw [Number.positive_exact hp, ← hsum, Ne, left_eq_add]
      exact hnonneg.lt_iff_ne'
    refine ⟨?_, hrest⟩
    rw [hamounts, amountsOf]
    split
    · rw [Number.total_append_singleton (total_taken taken) hp, hsum]
    next hnot =>
      rw [List.append_nil, total_taken, Decidable.not_not.mp fun h => hnot (hrest.mpr h)]
  · exact fun a ha => ha ▸ unrounded_int taken a
  · intro x hx
    obtain ⟨p, hp⟩ := exists_launched hplaced hx
    exact ⟨hp.managed, ⟨_, hp.offer, hp.named, nofun⟩, hp.committed, hp.timed⟩
  · intro e he
    obtain ⟨⟨id, r⟩, hx, hp⟩ := exists_placed hplaced
      (List.mem_append_left _ (List.mem_map_of_mem (f := Part.taken) he))
    obtain rfl : e.offerId = id := hp.named
    exact ⟨_, r, hp.matched e rfl, rfl, rfl, rfl, hx⟩
  · have hmade : os.length = if rest.positive then 1 else 0 := by
      rw [← List.length_map (fun o : BasicOffer Number => o.baseAmount), hos]
      split <;> rfl
    rw [hoffers, List.map_append, List.countP_append, List.countP_eq_zero.mpr, Nat.zero_add,
      ← hmade,
      ← List.length_map (f := Part.rest), ← List.length_map (f := Part.initiated)]
    · exact List.countP_eq_length.mpr
        (by simp [Part.initiated, Part.traderRole, Offer.new, Offer.enter])
    · simp [Part.initiated, Part.traderRole, Offer.new, Offer.enter]

end

/-! ## Reachable nodes -/

theorem unspent_run (C : Crypto) (market : TokenPair) (commitmentServiceAddress : Address)
    (is : List App.Input) : Unspent (App.run C market commitmentServiceAddress is).node := by
  have hinit : Counted commits OfferState.initiated
      (App.init market commitmentServiceAddress).node := .init market
  have hcounted := LTS.run_invariant (App.step C)
    (fun _ a => Counted commits OfferState.initiated a.node) hinit
    (fun _ _ _ hs => step_keeps hs (fun _ => counted_commits_effect)
      fun _ => counted_commits_broken) is
  exact hcounted.unspentFrom

/-- An id that the book does not have is not that of an entry that can be taken. -/
theorem CanTake.not_mem {s : Node} {taken : List OfferBookEntry} {id : Nat}
    (h : ∀ e ∈ taken, CanTake s e) (hid : s.offerBook.contains id = false) :
    id ∉ taken.map OfferBookEntry.offerId := by
  intro hmem
  obtain ⟨e, he, heq⟩ := List.mem_map.mp hmem
  have hlisted := (h e he).listed
  rw [heq, hid] at hlisted
  cases hlisted

/-- When `process_order` returns in a reachable node, and the book does not have the id that is
drawn for the rest of the order, the order is accounted for. -/
theorem order_accounted (C : Crypto) (market : TokenPair) (commitmentServiceAddress : Address)
    (is : List App.Input) (env : Env) (order : LimitOrder)
    (hempty : order.correspondingOffers = [])
    (hid : (App.run C market commitmentServiceAddress is).node.offerBook.contains
      (createRandom32BytesId env.offerUuid) = false)
    {s' : Node} (h : (processOrder env order).run
      (App.run C market commitmentServiceAddress is).node = .ok () s') :
    ∃ taken rest placed, matchLimit (App.run C market commitmentServiceAddress is).node.offerBook
        order.price order.orderType order.amount = .ok (taken, rest) ∧
      s'.orders.lookup order.orderId = some { order with correspondingOffers := placed } ∧
      Accounts s' { order with correspondingOffers := placed } taken rest := by
  obtain ⟨taken, rest, hmatch⟩ := matchLimit_ok
    (App.run C market commitmentServiceAddress is).node.offerBook order.price order.orderType
    order.amount
  have hcan := ((processOrder_returns_iff (sound_run ..) hmatch).mp
    (EStateM.returns_of_ok h)).1
  have hnew := CanTake.not_mem hcan hid
  obtain ⟨parts, hparts, hfiled⟩ := processOrder_filed hempty
    (unspent_run C market commitmentServiceAddress is) hmatch (fun _ => hnew) h
  obtain ⟨placed, horder, haccounts⟩ := hfiled.accounts hmatch hparts
  exact ⟨taken, rest, placed, hmatch, horder, haccounts⟩

/-- Address `4` offers `5` for `5`. -/
def offered : App := App.run .plain { baseToken := 1, quoteToken := 2 } 9
  [publication 1 2, .handle { now := 0, orderUuid := 1, offerUuid := 2 }]

/-- An order to sell this amount at the price `1`. -/
def sellOrder (amount : Number) : LimitOrder where
  orderId := 3
  orderType := .sell
  amount := amount
  price := Float.Model.ofInt 1
  lifetime := 10
  correspondingOffers := []

/-- An order for `8` takes the offer of `5`, and `3` are left. -/
theorem eight_accounted : ∃ s' taken rest placed,
    (processOrder { now := 0, orderUuid := 1, offerUuid := 2 } (sellOrder (.int 8))).run
      offered.node = .ok () s' ∧
    matchLimit offered.node.offerBook (Float.Model.ofInt 1) .sell (.int 8) = .ok (taken, rest) ∧
    s'.orders.lookup 3 = some { sellOrder (.int 8) with correspondingOffers := placed } ∧
    Accounts s' { sellOrder (.int 8) with correspondingOffers := placed } taken rest := by
  cases h : (processOrder { now := 0, orderUuid := 1, offerUuid := 2 } (sellOrder (.int 8))).run
    offered.node with
  | ok _ s' =>
    obtain ⟨taken, rest, placed, haccounted⟩ :=
      order_accounted .plain _ 9 _ _ (sellOrder (.int 8)) rfl (by decide +kernel) h
    exact ⟨s', taken, rest, placed, rfl, haccounted⟩
  | error err s' =>
    have hret : EStateM.Returns (processOrder { now := 0, orderUuid := 1, offerUuid := 2 }
      (sellOrder (.int 8))) offered.node := by decide +kernel
    exact absurd hret (EStateM.not_returns_of_error h)

/-- Of `2 ^ 53 + 10` as a `float`, `5` are taken and `2 ^ 53 + 4` are left. -/
theorem float_amount_rounded :
    let order := sellOrder (.float (Float.Model.ofInt (2 ^ 53 + 10)))
    let x := (processOrder { now := 0, orderUuid := 1, offerUuid := 2 } order).run offered.node
    x.returned = true ∧ offered.node.offerBook.contains (createRandom32BytesId 2) = false ∧
    order.amount.positive = true ∧ order.amount.exact = some (2 ^ 53 + 10) ∧
    (x.state.orders.lookup 3).bind (fun order' =>
      Number.total ((x.state.offersOf order').map fun o => o.baseAmount)) = some (2 ^ 53 + 9) := by
  decide +kernel

end RaidexNode
end Raidex
