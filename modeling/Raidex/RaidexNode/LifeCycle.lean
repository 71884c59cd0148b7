import Raidex.Lib.Run
import Raidex.RaidexNode.Progress

/-!
# Raidex.RaidexNode.LifeCycle

The life of one offer object, from `OfferFactory` on, under any calls of its triggers.

* `OfferObject`: the offer with its attribute `status`, which `OfferMachine.set_state` sets.
* `fireTrigger_callOffer`: it runs as the offer of a node does.
* `offer_life_cycle`: it is paid for at most once and with a proof, is not canceled after that,
  ends for good, and its status is that of its state.
-/

namespace Raidex
namespace RaidexNode

/-- The attribute `status` is missing until a state is set. -/
structure OfferObject extends OfferRun where
  status : Option OfferState

abbrev ObjectM := EStateM PyError OfferObject

/-- `OfferMachine.set_state` -/
def OfferObject.setState (s : OfferState) (x : OfferObject) : OfferObject where
  offer := { x.offer with state := s }
  out := x.out
  status := match s.parent with
    | some p => some p
    | none => some s

/-- A callback does not touch the status. -/
def onOffer {α : Type} (c : OfferM α) : ObjectM α := fun x =>
  match c.run x.toOfferRun with
  | .ok a y => .ok a { x with toOfferRun := y }
  | .error e y => .error e { x with toOfferRun := y }

/-- The `fsm_offer` of the source, for the offer at `r`. -/
def objectMachine (r : OfferRef) :
    Fsm.Machine OfferState OfferTrigger OfferKwargs PyError OfferObject where
  state x := x.offer.state
  setState := OfferObject.setState
  ancestors s := s.parent.toList
  onEnter s := ((offerMachine r).onEnter s).map fun c ev => onOffer (c ev)
  transitions := offerTransitions.map fun tr =>
    { trigger := tr.trigger, source := tr.source, dest := tr.dest }
  machineError := .machineError

/-! ## Calls -/

/-- What the handlers do with an offer. A match of the offer is made through `matched`. -/
inductive OfferCall where
  | initiating
  | paymentFailed
  | receiveCommitmentProof (proof : CommitmentProof)
  | receivedOffer
  | foundMatch (traderRole : TraderRole) (target : Address) (commitmentProof : CommitmentProof)
  | receivedInbound (raidenEvent : PaymentReceivedEvent)
  | timeout
  | receiveCancellationProof

def OfferCall.trigger : OfferCall → OfferTrigger
  | .initiating => .initiating
  | .paymentFailed => .paymentFailed
  | .receiveCommitmentProof _ => .receiveCommitmentProof
  | .receivedOffer => .receivedOffer
  | .foundMatch .. => .foundMatch
  | .receivedInbound _ => .receivedInbound
  | .timeout => .timeout
  | .receiveCancellationProof => .receiveCancellationProof

def OfferCall.kwargs : OfferCall → OfferKwargs
  | .receiveCommitmentProof proof => { proof := some proof }
  | .receivedInbound raidenEvent => { raidenEvent := some raidenEvent }
  | _ => {}

/-- An object that is not a model has no triggers. -/
def fireTrigger (r : OfferRef) (t : OfferTrigger) (kwargs : OfferKwargs) : ObjectM Unit := do
  if !(← get).offer.isModel then throw .attributeError
  let _ ← (objectMachine r).trigger t kwargs

/-- `on_enter_exchanging` of a match -/
def onEnterExchanging (m : Match) : ObjectM Unit :=
  modify fun x => { x with out := x.out ++
    [.trader (.swapInit m), .raidenListener (.expectInbound m.target x.offer.offerId)] }

def OfferCall.run (r : OfferRef) (c : OfferCall) : ObjectM Unit := do
  fireTrigger r c.trigger c.kwargs
  match c with
  | .foundMatch traderRole target commitmentProof =>
    onEnterExchanging { offer := some r, traderRole := traderRole, target := target,
                        commitmentProof := commitmentProof }
  | _ => pure ()

namespace OfferObject

/-- `add_model`: the machine does not add an object that equals one of its models. -/
def create (models : List (BasicOffer Number)) (o : BasicOffer Number) (traderRole : TraderRole) :
    OfferObject :=
  let x : OfferObject := { offer := .new o traderRole (!models.any fun o' => o'.equals o)
                           out := [], status := none }
  if x.offer.isModel then x.setState .openCreated else x

def step (r : OfferRef) (x : OfferObject) (c : OfferCall) : OfferObject := ((c.run r).run x).state

def run (r : OfferRef) (x : OfferObject) (calls : List OfferCall) : OfferObject :=
  LTS.run (step r) x calls

/-- How often a `SwapInitEvent` was dispatched. -/
def swapInits (x : OfferObject) : Nat :=
  x.out.countP fun e => match e with
    | .trader (.swapInit _) => true
    | _ => false

end OfferObject

/-- The two ways to make an offer. -/
inductive OfferFactory where
  | createOffer (offerType : OfferType) (baseAmount quoteAmount : Number) (offerLifetime : Nat)
      (traderRole : TraderRole)
  | createFromBasic (offer : BasicOffer Number) (traderRole : TraderRole)

def OfferFactory.create (env : Env) (models : List (BasicOffer Number)) :
    OfferFactory → Except PyError OfferObject
  | .createOffer offerType baseAmount quoteAmount offerLifetime traderRole => do
    let timeoutDate ← timePlus env.now offerLifetime
    return .create models { offerId := createRandom32BytesId env.offerUuid, type := offerType,
                            baseAmount := baseAmount, quoteAmount := quoteAmount,
                            timeoutDate := timeoutDate } traderRole
  | .createFromBasic offer traderRole => return .create models offer traderRole

/-! ## What a call does -/

section

variable {r : OfferRef} {x : OfferObject} {c : OfferCall} {d : OfferState}

/-- The object has entered a state. -/
def OfferObject.entered (x : OfferObject) (r : OfferRef) (d : OfferState) (kwargs : OfferKwargs) :
    OfferObject where
  offer := x.offer.enter d kwargs
  out := x.out ++ entryEvents r d kwargs
  status := some d.status

theorem objectMachine_undeclared {t : OfferTrigger} {kwargs : OfferKwargs}
    (h : t.dest x.offer.state = none) :
    ((objectMachine r).trigger t kwargs).run x = .error .machineError x := by
  obtain ⟨⟨⟨o, role, proof, model, s⟩, out⟩, status⟩ := x
  cases t <;> cases s <;> first | rfl | cases h

theorem objectMachine_run {t : OfferTrigger} {kwargs : OfferKwargs}
    (h : t.dest x.offer.state = some d)
    (hkwargs : t = .receivedInbound → kwargs.raidenEvent.isSome) :
    ((objectMachine r).trigger t kwargs).run x = .ok true (x.entered r d kwargs) := by
  obtain ⟨⟨⟨o, role, proof, model, s₀⟩, out⟩, status⟩ := x
  obtain ⟨p, e⟩ := kwargs
  unfold OfferObject.entered
  cases t <;> cases s₀ <;> cases h
  case receiveCommitmentProof.openUnproved =>
    cases p <;> (simp only [entryEvents, List.append_nil]; rfl)
  case receivedInbound.pendingExchanging =>
    obtain ⟨e, rfl⟩ := Option.isSome_iff_exists.mp (hkwargs rfl)
    rfl
  all_goals (simp only [entryEvents, List.append_nil]; rfl)

theorem OfferCall.kwargs_raidenEvent (c : OfferCall) (h : c.trigger = .receivedInbound) :
    c.kwargs.raidenEvent.isSome := by
  cases c <;> first | rfl | cases h

/-- The `SwapInitEvent` of a match that is made. -/
def OfferCall.matchEvents (r : OfferRef) (offerId : Nat) : OfferCall → List Event
  | .foundMatch traderRole target commitmentProof =>
    [.trader (.swapInit { offer := some r, traderRole := traderRole, target := target,
                          commitmentProof := commitmentProof }),
     .raidenListener (.expectInbound target offerId)]
  | _ => []

theorem fireTrigger_refused {t : OfferTrigger} (kwargs : OfferKwargs)
    (h : x.offer.isModel = false ∨ t.dest x.offer.state = none) :
    ∃ e, (fireTrigger r t kwargs).run x = .error e x := by
  unfold fireTrigger
  rw [EStateM.run_bind, EStateM.run_get]
  cases hmodel : x.offer.isModel with
  | false => exact ⟨.attributeError, by simp only [hmodel]; rfl⟩
  | true =>
    have hd : t.dest x.offer.state = none := h.resolve_left (by simp [hmodel])
    simp only [hmodel, Bool.not_true, Bool.false_eq_true, if_false]
    exact ⟨.machineError, EStateM.run_seq_error (objectMachine_undeclared hd)⟩

theorem fireTrigger_accepted {t : OfferTrigger} {kwargs : OfferKwargs}
    (hmodel : x.offer.isModel = true) (hd : t.dest x.offer.state = some d)
    (hkwargs : t = .receivedInbound → kwargs.raidenEvent.isSome) :
    (fireTrigger r t kwargs).run x = .ok () (x.entered r d kwargs) := by
  unfold fireTrigger
  rw [EStateM.run_bind, EStateM.run_get]
  simp only [hmodel, Bool.not_true, Bool.false_eq_true, if_false]
  exact EStateM.run_seq_ok (objectMachine_run hd hkwargs)

/-- The object changes as the offer of a node does, and dispatches the same events. -/
theorem fireTrigger_callOffer {s : Node} (ho : s.offers[r]? = some x.offer)
    (hevents : s.events = x.out) (c : OfferCall) :
    ((callOffer r c.trigger c.kwargs).run s).state.offers[r]? =
      some ((fireTrigger r c.trigger c.kwargs).run x).state.offer ∧
    ((callOffer r c.trigger c.kwargs).run s).state.events =
      ((fireTrigger r c.trigger c.kwargs).run x).state.out := by
  by_cases hfire : s.CanFire r c.trigger
  · obtain ⟨o, ho', hmodel, d, hd⟩ := hfire
    cases ho.symm.trans ho'
    rw [callOffer_ok ho hmodel hd c.kwargs_raidenEvent,
      fireTrigger_accepted hmodel hd c.kwargs_raidenEvent]
    exact ⟨entered_self ho, congrArg (· ++ entryEvents r d c.kwargs) hevents⟩
  · obtain ⟨e, hrun⟩ := callOffer_error (k := c.kwargs) hfire
    have hrefused : x.offer.isModel = false ∨ c.trigger.dest x.offer.state = none := by
      by_contra hne
      rw [not_or] at hne
      obtain ⟨d, hd⟩ := Option.ne_none_iff_exists'.mp hne.2
      exact hfire ⟨x.offer, ho, eq_true_of_ne_false hne.1, d, hd⟩
    obtain ⟨e', hrun'⟩ := fireTrigger_refused (r := r) c.kwargs hrefused
    rw [hrun, hrun']
    exact ⟨ho, hevents⟩

/-- A call that the state of the offer does not allow raises and changes nothing. -/
theorem call_refused (h : x.offer.isModel = false ∨ c.trigger.dest x.offer.state = none) :
    ∃ e, (c.run r).run x = .error e x := by
  obtain ⟨e, hrun⟩ := fireTrigger_refused (r := r) c.kwargs h
  exact ⟨e, EStateM.run_seq_error hrun⟩

theorem call_accepted (hmodel : x.offer.isModel = true)
    (hd : c.trigger.dest x.offer.state = some d) :
    (c.run r).run x = .ok () { x.entered r d c.kwargs with
      out := x.out ++ entryEvents r d c.kwargs ++ c.matchEvents r x.offer.offerId } := by
  unfold OfferCall.run
  rw [EStateM.run_seq_ok (fireTrigger_accepted hmodel hd c.kwargs_raidenEvent)]
  cases c with
  | foundMatch traderRole target commitmentProof => rfl
  | initiating | paymentFailed | receiveCommitmentProof _ | receivedOffer | receivedInbound _
  | timeout | receiveCancellationProof =>
    simp only [OfferCall.matchEvents, List.append_nil]
    rfl

theorem step_cases (r : OfferRef) (x : OfferObject) (c : OfferCall) :
    x.step r c = x ∨ ∃ d, c.trigger.dest x.offer.state = some d ∧
      x.step r c = { x.entered r d c.kwargs with
        out := x.out ++ entryEvents r d c.kwargs ++ c.matchEvents r x.offer.offerId } := by
  unfold OfferObject.step
  by_cases hmodel : x.offer.isModel = true
  · cases hd : c.trigger.dest x.offer.state with
    | none =>
      obtain ⟨e, hrun⟩ := call_refused (r := r) (.inr hd)
      exact .inl (by rw [hrun]; rfl)
    | some d => exact .inr ⟨d, rfl, by rw [call_accepted hmodel hd]; rfl⟩
  · obtain ⟨e, hrun⟩ := call_refused (r := r) (c := c) (.inl (eq_false_of_ne_true hmodel))
    exact .inl (by rw [hrun]; rfl)

end

/-! ## The life cycle -/

/-- What holds in every state of an offer object. -/
structure Alive (x : OfferObject) : Prop where
  paid : x.swapInits = if x.offer.state.engaged then 1 else 0
  proved : x.offer.state.proved = true → x.offer.proof.isSome = true
  status : x.offer.isModel = true → x.status = some x.offer.state.status

section

variable {r : OfferRef} {x : OfferObject} {c : OfferCall} {d : OfferState}

theorem swapInits_entered (hd : c.trigger.dest x.offer.state = some d)
    (h : x.swapInits = if x.offer.state.engaged then 1 else 0) :
    OfferObject.swapInits { x.entered r d c.kwargs with
      out := x.out ++ entryEvents r d c.kwargs ++ c.matchEvents r x.offer.offerId } =
      if d.engaged then 1 else 0 := by
  have hentry : (entryEvents r d c.kwargs).countP (fun e => match e with
      | .trader (.swapInit _) => true
      | _ => false) = 0 := by
    cases d <;> try rfl
    cases he : c.kwargs.raidenEvent <;> simp [entryEvents, he]
  unfold OfferObject.swapInits at h ⊢
  rw [List.countP_append, List.countP_append, h, hentry]
  cases c with
  | foundMatch traderRole target commitmentProof =>
    have hstate : x.offer.state.engaged = false ∧ d = .pendingExchanging := by
      revert hd
      cases x.offer.state <;> intro hd <;> cases hd <;> exact ⟨rfl, rfl⟩
    obtain ⟨hstate, rfl⟩ := hstate
    rw [hstate]
    rfl
  | initiating | paymentFailed | receiveCommitmentProof _ | receivedOffer | receivedInbound _
  | timeout | receiveCancellationProof =>
    revert hd
    cases x.offer.state <;> intro hd <;> cases hd <;> rfl

/-- The proof that leads to `proved` is stored, and stays. -/
theorem proof_entered (hd : c.trigger.dest x.offer.state = some d)
    (h : x.offer.state.proved = true → x.offer.proof.isSome = true) (hp : d.proved = true) :
    (x.offer.enter d c.kwargs).proof.isSome = true := by
  by_cases hproved : d = .openProved
  · subst hproved
    have hcall : ∃ proof, c = .receiveCommitmentProof proof := by
      revert hd
      cases c <;> cases x.offer.state <;> intro hd <;> cases hd
      exact ⟨_, rfl⟩
    obtain ⟨proof, rfl⟩ := hcall
    rfl
  · have hkept : (x.offer.enter d c.kwargs).proof = x.offer.proof := if_neg hproved
    rw [hkept]
    refine h ?_
    revert hd
    cases c <;> cases x.offer.state <;> intro hd <;> cases hd <;>
      first | rfl | exact absurd rfl hproved | cases hp

theorem alive_create (models : List (BasicOffer Number)) (o : BasicOffer Number)
    (traderRole : TraderRole) : Alive (.create models o traderRole) := by
  unfold OfferObject.create
  dsimp only
  split
  · exact ⟨rfl, nofun, fun _ => rfl⟩
  next hmodel => exact ⟨rfl, nofun, fun h => absurd h hmodel⟩

theorem alive_step (h : Alive x) (c : OfferCall) : Alive (x.step r c) := by
  rcases step_cases r x c with heq | ⟨d, hd, heq⟩
  · rw [heq]; exact h
  · rw [heq]
    exact ⟨swapInits_entered hd h.paid, proof_entered hd h.proved, fun _ => rfl⟩

theorem alive_run (h : Alive x) (calls : List OfferCall) : Alive (x.run r calls) :=
  LTS.run_invariant (OfferObject.step r) (fun _ y => Alive y) h (fun _ _ c hy => alive_step hy c)
    calls

theorem engaged_step (h : x.offer.state.engaged = true) (c : OfferCall) :
    (x.step r c).offer.state.engaged = true := by
  rcases step_cases r x c with heq | ⟨d, hd, heq⟩
  · rw [heq]; exact h
  · rw [heq]
    exact ((Offer.Later.enter (k := c.kwargs) hd).engaged h).1

/-- Only an offer with a proven commitment becomes engaged. -/
theorem proved_of_engaged (hd : c.trigger.dest x.offer.state = some d) (he : d.engaged = true) :
    x.offer.state.proved = true := by
  revert hd
  cases c <;> cases x.offer.state <;> intro hd <;> cases hd <;> first | rfl | cases he

theorem isModel_step (c : OfferCall) : (x.step r c).offer.isModel = x.offer.isModel := by
  rcases step_cases r x c with heq | ⟨d, -, heq⟩
  · rw [heq]
  · rw [heq]; rfl

theorem ended_step (h : x.offer.state = .canceled ∨ x.offer.state = .completed) (c : OfferCall) :
    x.step r c = x := by
  rcases step_cases r x c with heq | ⟨d, hd, -⟩
  · exact heq
  · rcases h with h | h
    · rw [h] at hd
      cases ht : c.trigger <;> rw [ht] at hd <;> cases hd
    · rw [h, completed_dest] at hd
      cases hd

end

theorem alive_factory {f : OfferFactory} {env : Env} {models : List (BasicOffer Number)}
    {x : OfferObject} (h : f.create env models = .ok x) : Alive x := by
  cases f with
  | createOffer offerType baseAmount quoteAmount offerLifetime traderRole =>
    simp only [OfferFactory.create] at h
    cases ht : timePlus env.now offerLifetime with
    | error e => rw [ht] at h; cases h
    | ok timeoutDate => rw [ht] at h; cases h; exact alive_create ..
  | createFromBasic offer traderRole => cases h; exact alive_create ..

/-- Some transition is declared for the trigger in the state or its parent. -/
def OfferTrigger.allowed (t : OfferTrigger) (s : OfferState) : Bool :=
  offerTransitions.any fun tr => tr.trigger = t && tr.source ∈ s :: s.parent.toList

theorem dest_of_not_allowed {t : OfferTrigger} {s : OfferState} (h : t.allowed s = false) :
    t.dest s = none := by
  cases t <;> cases s <;> first | rfl | cases h

/-- The life cycle of an offer, whatever is called and in which order. -/
theorem offer_life_cycle (env : Env) (models : List (BasicOffer Number)) (f : OfferFactory)
    (x : OfferObject) (h : f.create env models = .ok x) (r : OfferRef) (calls : List OfferCall) :
    (x.run r calls).swapInits ≤ 1 ∧
    (∀ pre c, pre ++ [c] <+: calls → (x.run r pre).swapInits < (x.run r (pre ++ [c])).swapInits →
      (x.run r pre).offer.proof.isSome = true) ∧
    (∀ pre, pre <+: calls → (x.run r pre).swapInits ≠ 0 →
      (x.run r calls).offer.state ≠ .canceled ∧
      (x.run r calls).offer.state ≠ .openCancellationRequested) ∧
    (∀ pre, pre <+: calls →
      (x.run r pre).offer.state = .canceled ∨ (x.run r pre).offer.state = .completed →
      x.run r calls = x.run r pre) ∧
    (x.offer.isModel = true → (x.run r calls).status = some (x.run r calls).offer.state.status) ∧
    ∀ c : OfferCall, c.trigger.allowed (x.run r calls).offer.state = false →
      ∃ e, (c.run r).run (x.run r calls) = .error e (x.run r calls) := by
  have halive (calls : List OfferCall) : Alive (x.run r calls) := alive_run (alive_factory h) calls
  refine ⟨?_, ?_, ?_, ?_, ?_, fun c hc => call_refused (.inr (dest_of_not_allowed hc))⟩
  · rw [(halive calls).paid]
    split <;> decide
  · intro pre c _ hlt
    have hrun : x.run r (pre ++ [c]) = (x.run r pre).step r c := LTS.run_concat ..
    have hbefore := (halive pre).paid
    have hafter := (halive (pre ++ [c])).paid
    rw [hrun] at hlt hafter
    refine (halive pre).proved ?_
    rcases step_cases r (x.run r pre) c with heq | ⟨d, hd, heq⟩
    · rw [heq] at hlt
      exact absurd hlt (Nat.lt_irrefl _)
    · have hd' : ((x.run r pre).step r c).offer.state = d := by rw [heq]; rfl
      rw [hbefore, hafter, hd'] at hlt
      cases he : d.engaged with
      | true => exact proved_of_engaged hd he
      | false => rw [he] at hlt; exact absurd hlt (Nat.not_lt_zero _)
  · rintro pre ⟨post, rfl⟩ hpaid
    have hengaged : (x.run r pre).offer.state.engaged = true := by
      by_contra hne
      rw [(halive pre).paid, if_neg hne] at hpaid
      exact hpaid rfl
    have hstill : (x.run r (pre ++ post)).offer.state.engaged = true := by
      unfold OfferObject.run
      rw [LTS.run_append]
      exact LTS.run_invariant (OfferObject.step r) (fun _ y => y.offer.state.engaged = true)
        hengaged
        (fun _ _ c hy => engaged_step hy c) post
    exact ⟨fun hc => (by rw [hc] at hstill; cases hstill),
      fun hc => (by rw [hc] at hstill; cases hstill)⟩
  · rintro pre ⟨post, rfl⟩ hended
    have hsplit : x.run r (pre ++ post) = LTS.run (OfferObject.step r) (x.run r pre) post :=
      LTS.run_append ..
    rw [hsplit]
    exact LTS.run_of_fixed (ended_step hended) post
  · intro hmodel
    refine (halive calls).status ?_
    rw [← hmodel]
    exact LTS.run_invariant (OfferObject.step r) (fun _ y => y.offer.isModel = x.offer.isModel) rfl
      (fun _ _ c hy => (isModel_step c).trans hy) calls

/-- A taken offer, paid for once its commitment is proved. -/
def paidCalls : List OfferCall :=
  let proof : CommitmentProof := { commitmentSig := none, secret := 3, secretHash := 3,
                                   offerId := 7, signature := some 9 }
  [.initiating, .receiveCommitmentProof proof, .foundMatch .taker 4 proof, .timeout,
   .foundMatch .taker 4 proof]

def takenBasic : BasicOffer Number where
  offerId := 7
  type := .buy
  baseAmount := .int 5
  quoteAmount := .int 5
  timeoutDate := 100

theorem taken_offer_paid_once :
    ((OfferObject.create [] takenBasic .taker).run 0 paidCalls).swapInits ≤ 1 ∧
      ((OfferObject.create [] takenBasic .taker).run 0 paidCalls).status = some .pending := by
  obtain ⟨hpaid, -, -, -, hstatus, -⟩ :=
    offer_life_cycle { now := 0, orderUuid := 1, offerUuid := 2 }
    [] (.createFromBasic takenBasic .taker) _ rfl 0 paidCalls
  exact ⟨hpaid, hstatus rfl⟩

end RaidexNode
end Raidex
