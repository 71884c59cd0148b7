import Raidex.RaidexNode.Progress
import Raidex.RaidexNode.Steps

/-!
# Raidex.RaidexNode.Payments

On whose word a node pays.

* `Backed`: what a running node knows of its matches and of the proofs it keeps.
* `Authorized`: the commitment service has proved the commitment that a payment is for.
* `Vouched`: the proof that the consumer is about to act on is one of the commitment service, and
  is for the secret of the match. The node never checks this.
* `payments_authorized`: in a run whose steps are vouched for, all payments are authorized.
-/

namespace Raidex
namespace RaidexNode

/-! ## Matches and proofs -/

/-- The proof of an offer is one received for it. -/
structure Offer.Kept (R : CommitmentProof → Prop) (o : Offer) : Prop where
  proved : o.state.proved = true → ∃ p, o.proof = some p
  received : ∀ p, o.proof = some p → R p ∧ p.offerId = o.offerId

structure Backed (R : CommitmentProof → Prop) (s : Node) : Prop where
  managed : Managed s
  matched : ∀ id m, s.matchesById.lookup id = some m → ∃ r o, m.offer = some r ∧
    s.offers[r]? = some o ∧ o.offerId = id ∧ (m.traderRole = .maker → o.state.engaged = true)
  kept : ∀ (r : OfferRef) (o : Offer), s.offers[r]? = some o → o.Kept R

namespace Offer.Kept

variable {R : CommitmentProof → Prop} {o : Offer} {t : OfferTrigger} {d : OfferState}
  {k : OfferKwargs}

theorem new (b : BasicOffer Number) (role : TraderRole) (isModel : Bool) :
    (Offer.new b role isModel).Kept R :=
  ⟨fun h => (by cases h), fun p h => (by cases h)⟩

theorem enter (h : o.Kept R) (hd : t.dest o.state = some d)
    (hp : t = .receiveCommitmentProof → ∃ p, k.proof = some p ∧ R p ∧ p.offerId = o.offerId) :
    (o.enter d k).Kept R := by
  by_cases ht : t = .receiveCommitmentProof
  · obtain ⟨p, hkwargs, hR, hid⟩ := hp ht
    have hd' : d = .openProved := (receiveCommitmentProof_dest (ht ▸ hd)).2
    have hproof : (o.enter d k).proof = some p := by simp [Offer.enter, hd', hkwargs]
    refine ⟨fun _ => ⟨p, hproof⟩, fun p' hp' => ?_⟩
    obtain rfl := Option.some.inj (hproof.symm.trans hp')
    exact ⟨hR, hid⟩
  · have hd' : d ≠ .openProved ∧ (d.proved = true → o.state.proved = true) := by
      cases t <;> cases hs : o.state <;> rw [hs] at hd <;> cases hd
      all_goals first | exact absurd rfl ht | exact ⟨nofun, fun _ => rfl⟩ | exact ⟨nofun, nofun⟩
    have hproof : (o.enter d k).proof = o.proof := if_neg hd'.1
    refine ⟨fun h' => ?_, fun p hp' => h.received p (hproof ▸ hp')⟩
    obtain ⟨p, hp'⟩ := h.proved (hd'.2 h')
    exact ⟨p, hproof.trans hp'⟩

end Offer.Kept

namespace Backed

variable {R : CommitmentProof → Prop} {s s' : Node} {r : OfferRef} {o : Offer} {t : OfferTrigger}
  {d : OfferState} {k : OfferKwargs} {fresh : Prop} {sc : StateChange}

theorem init (market : TokenPair) : Backed R (.init market) :=
  ⟨.init market, by simp [Node.init], by simp [Node.init]⟩

theorem mono {R' : CommitmentProof → Prop} (hs : Backed R s) (h : ∀ p, R p → R' p) :
    Backed R' s where
  managed := hs.managed
  matched := hs.matched
  kept r o ho :=
    ⟨(hs.kept r o ho).proved, fun p hp => ((hs.kept r o ho).received p hp).imp_left (h p)⟩

/-- Offers advance, and are managed and matched as before. -/
theorem of_advances (hs : Backed R s) (h : s.Advances s')
    (hmanager : s'.offerManager = s.offerManager) (hmatches : s'.matchesById = s.matchesById)
    (hkept : ∀ (r : OfferRef) (o : Offer), s'.offers[r]? = some o → o.Kept R) : Backed R s' where
  managed := hs.managed.advances h hmanager
  matched id m hm := by
    rw [hmatches] at hm
    obtain ⟨r, o, hr, ho, rfl, hmaker⟩ := hs.matched id m hm
    obtain ⟨o', ho', hlater⟩ := h r o ho
    exact ⟨r, o', hr, ho', hlater.offerId, fun hrole => (hlater.engaged (hmaker hrole)).1⟩
  kept := hkept

theorem of_eq (hs : Backed R s) (hoffers : s'.offers = s.offers)
    (hmanager : s'.offerManager = s.offerManager) (hmatches : s'.matchesById = s.matchesById) :
    Backed R s' :=
  hs.of_advances (.of_eq hoffers) hmanager hmatches fun r o ho => hs.kept r o (hoffers ▸ ho)

theorem created (hs : Backed R s) (b : BasicOffer Number) (role : TraderRole) :
    Backed R (s.created b role) := by
  refine ⟨hs.managed.created b role, ?_, ?_⟩
  · intro id m hm
    obtain ⟨r, o, hr, ho, hid, hmaker⟩ := hs.matched id m hm
    exact ⟨r, o, hr, created_old ho, hid, hmaker⟩
  · intro r o ho
    rcases created_cases ho with ho | ⟨rfl, rfl⟩
    · exact hs.kept r o ho
    · exact .new b role _

theorem entered (hs : Backed R s) (ho : s.offers[r]? = some o) (hd : t.dest o.state = some d)
    (hp : t = .receiveCommitmentProof → ∃ p, k.proof = some p ∧ R p ∧ p.offerId = o.offerId) :
    Backed R (s.entered r o d k) := by
  refine hs.of_advances (.entered ho hd) rfl rfl ?_
  intro r' o' ho'
  rcases entered_cases ho' with ⟨rfl, rfl⟩ | ⟨-, ho'⟩
  · exact (hs.kept _ _ ho).enter hd hp
  · exact hs.kept r' o' ho'

/-- A match for the offer id, of an offer with this id, that is engaged for a maker's match. -/
theorem setMatch (hs : Backed R s) (id : Nat) (m : Match) (hm : ∃ r o, m.offer = some r ∧
    s.offers[r]? = some o ∧ o.offerId = id ∧ (m.traderRole = .maker → o.state.engaged = true)) :
    Backed R { s with matchesById := s.matchesById.insert id m } := by
  refine ⟨hs.managed, fun id' m' hm' => ?_, hs.kept⟩
  by_cases hid : id' = id
  · subst hid
    obtain rfl : m = m' := Option.some.inj ((AList.lookup_insert ..).symm.trans hm')
    exact hm
  · exact hs.matched id' m' ((AList.lookup_insert_ne hid).symm.trans hm')

theorem effect (hs : Backed R s) (hsc : ∀ p, sc = .commitmentProof p → R p)
    (h : Effect fresh sc s s') : Backed R s' := by
  have hproof {p : CommitmentProof} {r : OfferRef} {o : Offer} (hp : sc = .commitmentProof p)
      (hr : s.getOffer p.offerId = some r) (ho : s.offers[r]? = some o) :
      R p ∧ p.offerId = o.offerId := ⟨hsc p hp, (hs.managed.offerId hr ho).symm⟩
  cases h with
  | quiet h => exact hs.of_eq h.offers h.offerManager h.matchesById
  | created data b role _ => exact hs.created b role
  | taken data e _ =>
    refine (hs.created e.takeOffer .taker).setMatch e.offerId (takerMatch s.nextOffer e) ?_
    exact ⟨s.nextOffer, _, rfl, List.getElem?_concat_length, rfl, nofun⟩
  | entered ho hmodel hd hfires =>
    refine hs.entered ho hd ?_
    intro ht
    cases hfires <;> cases ht
    next p hr hm => exact ⟨p, rfl, hproof rfl hr ho⟩
  | provedMatched p hr ho hmodel hstate hm hr' ho' hmodel' hd =>
    have hproved := hs.entered (t := .receiveCommitmentProof) (d := .openProved)
      (k := { proof := some p }) ho (by rw [hstate]; rfl) fun _ => ⟨p, rfl, hproof rfl hr ho⟩
    exact (hproved.entered (k := {}) ho' hd nofun).of_eq rfl rfl rfl
  | @called s r o offerId initiator p hr ho hmodel hd =>
    have hid := hs.managed.offerId hr ho
    refine ((hs.entered (k := {}) ho hd nofun).setMatch offerId
      (makerMatch (some r) initiator p) ?_).of_eq rfl rfl rfl
    exact ⟨r, _, rfl, entered_self ho, hid, fun _ => rfl⟩
  | completed e hm hr ho hmodel hstate hr' =>
    refine (hs.entered (t := .receivedInbound) ho ?_ nofun).of_eq rfl rfl rfl
    rw [hstate]; rfl

end Backed

/-! ## Payments -/

section

variable {C : Crypto} {commitmentServiceAddress : Address} {R : CommitmentProof → Prop}
  {s s' : Node} {m : Match} {fresh : Prop} {sc : StateChange}

/-- The commitment service has proved the commitment for the offer and the secret of the match,
and this is the proof that a maker keeps. -/
def Authorized (C : Crypto) (commitmentServiceAddress : Address) (R : CommitmentProof → Prop)
    (s : Node) (m : Match) : Prop :=
  ∃ r o p, m.offer = some r ∧ s.offers[r]? = some o ∧ o.state.engaged = true ∧
    (R p ∧ p.offerId = o.offerId ∧ p.secretHash = m.getSecretHash ∧
      sender C p = .ok commitmentServiceAddress) ∧
    (m.traderRole = .maker → o.proof = some p)

/-- What a handler acts on is a proof of the commitment service, for the secret of the match. -/
def Vouched (C : Crypto) (commitmentServiceAddress : Address) (s : Node) : StateChange → Prop
  | .commitmentProof p => ∀ r ∈ s.getOffer p.offerId, ∀ o ∈ s.offers[r]?,
      o.state = .openUnproved → ∀ m ∈ s.matchesById.lookup o.offerId,
      sender C p = .ok commitmentServiceAddress ∧ p.secretHash = m.getSecretHash
  | .takerCall offerId _ p => ∀ r ∈ s.getOffer offerId, ∀ o ∈ s.offers[r]?,
      (OfferTrigger.foundMatch.dest o.state).isSome → ∀ p' ∈ o.proof,
      sender C p' = .ok commitmentServiceAddress ∧ p'.secretHash = p.secretHash
  | _ => True

instance (C : Crypto) (commitmentServiceAddress : Address) (s : Node) (sc : StateChange) :
    Decidable (Vouched C commitmentServiceAddress s sc) :=
  match sc with
  | .commitmentProof _ => inferInstanceAs (Decidable (∀ _ ∈ _, ∀ _ ∈ _, _ → ∀ _ ∈ _, _ ∧ _))
  | .takerCall .. => inferInstanceAs (Decidable (∀ _ ∈ _, ∀ _ ∈ _, _ → ∀ _ ∈ _, _ ∧ _))
  | .newLimitOrder _ | .cancelLimitOrder _ | .offerTimeout .. | .cancellationProof _
  | .offerPublished _ | .transferReceived _ | .channelStatus _ | .makeChannel .. => .isTrue trivial

theorem Authorized.advances (h : Authorized C commitmentServiceAddress R s m)
    (hadv : s.Advances s') : Authorized C commitmentServiceAddress R s' m := by
  obtain ⟨r, o, p, hr, ho, he, ⟨hR, hid, hrest⟩, hmaker⟩ := h
  obtain ⟨o', ho', hlater⟩ := hadv r o ho
  obtain ⟨he', hp'⟩ := hlater.engaged he
  exact ⟨r, o', p, hr, ho', he', ⟨hR, hid.trans hlater.offerId.symm, hrest⟩,
    fun hrole => hp'.trans (hmaker hrole)⟩

theorem Authorized.mono {R' : CommitmentProof → Prop} (h : ∀ p, R p → R' p)
    (ha : Authorized C commitmentServiceAddress R s m) :
    Authorized C commitmentServiceAddress R' s m := by
  obtain ⟨r, o, p, hr, ho, he, ⟨hR, hrest⟩, hmaker⟩ := ha
  exact ⟨r, o, p, hr, ho, he, ⟨h p hR, hrest⟩, hmaker⟩

theorem not_mem_entryEvents {r : OfferRef} {d : OfferState} {k : OfferKwargs}
    {e : TraderEvent} : Event.trader e ∉ entryEvents r d k := by
  cases d <;> simp [entryEvents]

theorem engaged_unmatchable {st : OfferState} (h : st.engaged = true) :
    OfferTrigger.foundMatch.dest st = none := by
  cases st <;> first | rfl | cases h

/-- A payment is an old one, or that of the match made now. -/
theorem swapInit_exchanging {r : OfferRef} {o : Offer} {m m' : Match}
    (h : Event.trader (.swapInit m') ∈ (s.exchanging m r o).events) :
    Event.trader (.swapInit m') ∈ s.events ∨ m' = m := by
  simp only [Node.exchanging, Node.entered, entryEvents, List.append_nil] at h
  refine (List.mem_append.mp h).imp_right ?_
  intro h
  simpa using h

theorem Vouched.effect (hv : Vouched C commitmentServiceAddress s sc) (h : Effect fresh sc s s') :
    Vouched C commitmentServiceAddress s' sc := by
  cases h with
  | quiet h =>
    obtain ⟨hoffers, -, hmanager, hmatches, -⟩ := h
    unfold Vouched Node.getOffer at hv ⊢
    rw [hoffers, hmanager, hmatches]
    exact hv
  | created | taken | completed => trivial
  | entered ho hmodel hd hfires =>
    cases hfires with
    | proved p hr hm =>
      -- the offer has left the state that a proof is for
      intro r' hr' o' ho' hstate
      cases hr.symm.trans hr'
      cases (entered_self ho).symm.trans ho'
      obtain ⟨-, rfl⟩ := receiveCommitmentProof_dest hd
      cases hstate
    | _ => trivial
  | provedMatched p hr ho hmodel hstate hm hr' ho' hmodel' hd =>
    intro r'' hr'' o'' ho'' hstate
    cases hr.symm.trans hr''
    rcases entered_cases ho'' with ⟨-, rfl⟩ | ⟨-, ho''⟩
    · cases hstate
    · cases (entered_self ho).symm.trans ho''
      cases hstate
  | called offerId initiator p hr ho hmodel hd =>
    intro r' hr' o' ho' hsome
    cases hr.symm.trans hr'
    cases (entered_self ho).symm.trans ho'
    cases hsome

theorem authorized_effect (hs : Backed R s) (hsc : ∀ p, sc = .commitmentProof p → R p)
    (hv : Vouched C commitmentServiceAddress s sc) (h : Effect fresh sc s s')
    (hm : Event.trader (.swapInit m) ∈ s'.events) :
    Event.trader (.swapInit m) ∈ s.events ∨ Authorized C commitmentServiceAddress R s' m := by
  cases h with
  | quiet h =>
    obtain ⟨es, hes, hquiet⟩ := h.events
    rw [hes, List.mem_append] at hm
    exact .inl (hm.resolve_right fun hm => by cases hquiet _ hm)
  | created | taken => exact .inl hm
  | entered ho hmodel hd hfires =>
    exact .inl ((List.mem_append.mp hm).resolve_right not_mem_entryEvents)
  | provedMatched p hr ho hmodel hstate hlookup hr' ho' hmodel' hd =>
    rcases swapInit_exchanging hm with hm | rfl
    · exact .inl ((List.mem_append.mp hm).resolve_right not_mem_entryEvents)
    right
    obtain ⟨r₀, o₀, hr₀, ho₀, hid₀, hmaker⟩ := hs.matched _ _ hlookup
    cases hr'.symm.trans hr₀
    have hid₁ := hs.managed.offerId hr ho
    obtain ⟨hsender, hhash⟩ := hv _ hr _ ho hstate _ hlookup
    have hproved : OfferTrigger.receiveCommitmentProof.dest _ = some .openProved :=
      congrArg _ hstate
    obtain ⟨o₂, ho₂, hlater⟩ := Node.Advances.entered (k := { proof := some p }) ho hproved _ _ ho₀
    cases ho'.symm.trans ho₂
    refine ⟨_, _, p, hr', entered_self ho', rfl, ⟨hsc p rfl, ?_, hhash, hsender⟩, fun hrole => ?_⟩
    · exact hid₁.symm.trans (hid₀.symm.trans hlater.offerId.symm)
    · -- a maker's match was made when it was set
      have he := (hlater.engaged (hmaker hrole)).1
      have hstop : OfferTrigger.foundMatch.dest _ = none := engaged_unmatchable he
      rw [hstop] at hd; cases hd
  | @called s r o offerId initiator p hr ho hmodel hd =>
    rcases swapInit_exchanging hm with hm | rfl
    · exact .inl hm
    right
    have hproved : o.state.proved = true := by
      revert hd; cases o.state <;> intro hd <;> cases hd <;> rfl
    obtain ⟨p', hp'⟩ := (hs.kept r o ho).proved hproved
    obtain ⟨hR, hid⟩ := (hs.kept r o ho).received p' hp'
    obtain ⟨hsender, hhash⟩ := hv r hr o ho (by rw [hd]; rfl) p' hp'
    exact ⟨r, _, p', rfl, entered_self ho, rfl, ⟨hR, hid, hhash, hsender⟩, fun _ => hp'⟩
  | completed e hlookup hr ho hmodel hstate hr' =>
    exact .inl ((List.mem_append.mp hm).resolve_right not_mem_entryEvents)

theorem authorized_broken (h : Broken sc s s') (hm : Event.trader (.swapInit m) ∈ s'.events) :
    Event.trader (.swapInit m) ∈ s.events := by
  cases h with
  | unmatched p hr ho hmodel hstate hlookup =>
    exact (List.mem_append.mp hm).resolve_right not_mem_entryEvents
  | called offerId initiator p => exact hm
  | unremoved e hlookup hr ho hmodel hstate =>
    exact (List.mem_append.mp hm).resolve_right not_mem_entryEvents

end

/-! ## Runs -/

/-- The proofs that came in on the topic of the node. -/
def proofsReceived (is : List App.Input) : List CommitmentProof :=
  is.filterMap fun
    | .commitmentProof p => some p
    | _ => none

/-- The node acts on a proof that is vouched for, if it acts on one. -/
def App.Vouched (C : Crypto) (commitmentServiceAddress : Address) (a : App) : App.Input → Prop
  | .handle _ => a.running = true →
      ∀ sc ∈ a.stateChanges.head?, RaidexNode.Vouched C commitmentServiceAddress a.node sc
  | _ => True

instance (C : Crypto) (commitmentServiceAddress : Address) (a : App) (i : App.Input) :
    Decidable (a.Vouched C commitmentServiceAddress i) :=
  match i with
  | .handle _ => inferInstanceAs (Decidable (_ → ∀ _ ∈ _, _))
  | .postLimitOrder .. | .deleteLimitOrder _ | .makeChannel .. | .commitmentProof _
  | .cancellationProof _ | .broadcast _ | .provenOffer _ | .payment _ | .channelStatus _ | .timer _
  | .startListener | .serveCommitmentService _ | .serveRaidenListener => .isTrue trivial

section

variable {C : Crypto} {commitmentServiceAddress : Address}

/-- What is known after the inputs `h`. -/
structure PaymentInv (C : Crypto) (commitmentServiceAddress : Address) (h : List App.Input)
    (a : App) : Prop where
  queued : ∀ p, StateChange.commitmentProof p ∈ a.stateChanges → p ∈ proofsReceived h
  backed : a.running = true → Backed (· ∈ proofsReceived h) a.node
  authorized : ∀ m, Event.trader (.swapInit m) ∈ a.node.events →
    Authorized C commitmentServiceAddress (· ∈ proofsReceived h) a.node m

theorem proofsReceived_concat (h : List App.Input) (i : App.Input) :
    proofsReceived (h ++ [i]) = proofsReceived h ++ proofsReceived [i] :=
  List.filterMap_append

theorem PaymentInv.step {h : List App.Input} {a : App} {i : App.Input}
    (hinv : PaymentInv C commitmentServiceAddress h a)
    (hi : a.Vouched C commitmentServiceAddress i) :
    PaymentInv C commitmentServiceAddress (h ++ [i]) (a.step C i) := by
  have hmono (p : CommitmentProof) (hp : p ∈ proofsReceived h) : p ∈ proofsReceived (h ++ [i]) := by
    rw [proofsReceived_concat]; exact List.mem_append_left _ hp
  have hqueued (p : CommitmentProof)
      (hp : StateChange.commitmentProof p ∈ (a.step C i).stateChanges) :
      p ∈ proofsReceived (h ++ [i]) := by
    rcases App.stateChanges_step hp with hp | rfl
    · exact hmono p (hinv.queued p hp)
    · rw [proofsReceived_concat]; exact List.mem_append_right _ (List.mem_singleton_self p)
  rcases a.step_cases C i with ⟨hquiet, hrun⟩ | ⟨env, sc, rest, rfl, hrunning, hq, hnode, hrun⟩
  · refine ⟨hqueued, ?_, ?_⟩
    · intro hr
      exact ((hinv.backed (hrun ▸ hr)).mono hmono).of_eq hquiet.offers hquiet.offerManager
        hquiet.matchesById
    · intro m hm
      obtain ⟨es, hes, hquiets⟩ := hquiet.events
      rw [hes, List.mem_append] at hm
      have hold := hm.resolve_right fun hm => by cases hquiets _ hm
      exact ((hinv.authorized m hold).mono hmono).advances (.of_eq hquiet.offers)
  let R (p : CommitmentProof) : Prop := p ∈ proofsReceived (h ++ [.handle env])
  let P (s : Node) : Prop := Backed R s ∧ RaidexNode.Vouched C commitmentServiceAddress s sc ∧
    ∀ m, Event.trader (.swapInit m) ∈ s.events → Authorized C commitmentServiceAddress R s m
  have hsc (p : CommitmentProof) (hp : sc = .commitmentProof p) : R p :=
    hmono p (hinv.queued p (by rw [hq, hp]; exact List.mem_cons_self ..))
  have hproceeds := handled_proceeds env sc a.node
  have hstart : P a.node := ⟨(hinv.backed hrunning).mono hmono, hi hrunning sc (by rw [hq]; rfl),
    fun m hm => (hinv.authorized m hm).mono hmono⟩
  have hkeep (s s' : Node) (heff : Effect False sc s s') (hP : P s) : P s' := by
    obtain ⟨hbacked, hv, hauth⟩ := hP
    refine ⟨hbacked.effect hsc heff, hv.effect heff, ?_⟩
    intro m hm
    rcases authorized_effect hbacked hsc hv heff hm with hm | hm
    · exact (hauth m hm).advances heff.advances
    · exact hm
  refine ⟨hqueued, fun hret => ?_, ?_⟩ <;> rw [hnode]
  · exact (hproceeds.keeps hstart hkeep (hrun ▸ hret)).1
  refine hproceeds.invariant (P := P) (Q := fun s => ∀ m, Event.trader (.swapInit m) ∈ s.events →
    Authorized C commitmentServiceAddress R s m) hstart hkeep ?_ fun s hP => hP.2.2
  intro s s' hbroken hP m hm
  exact (hP.2.2 m (authorized_broken hbroken hm)).advances hbroken.advances

/-- In a run in which the node acts only on proofs of the commitment service for the secret of the
match, it pays only under the word of the commitment service. -/
theorem payments_authorized (C : Crypto) (market : TokenPair) (commitmentServiceAddress : Address)
    (is : List App.Input)
    (h : LTS.AllSteps (App.step C) (App.Vouched C commitmentServiceAddress)
      (.init market commitmentServiceAddress) is) (m : Match)
    (hm : Event.trader (.swapInit m) ∈ (App.run C market commitmentServiceAddress is).node.events) :
    ∃ r o, m.offer = some r ∧
      (App.run C market commitmentServiceAddress is).node.offers[r]? = some o ∧
      (∃ p ∈ proofsReceived is, p.offerId = o.offerId ∧ p.secretHash = m.getSecretHash ∧
        sender C p = .ok commitmentServiceAddress) ∧
      (m.traderRole = .maker → ∃ p, o.proof = some p ∧ p.secretHash = m.getSecretHash) := by
  have hinit : PaymentInv C commitmentServiceAddress [] (.init market commitmentServiceAddress) :=
    ⟨by simp [App.init], fun _ => .init market, by simp [App.init, Node.init]⟩
  have hinv := LTS.run_invariant_of_guard (App.step C) (App.Vouched C commitmentServiceAddress)
    (PaymentInv C commitmentServiceAddress) hinit (fun _ _ _ hinv hi => hinv.step hi) is h
  obtain ⟨r, o, p, hr, ho, -, ⟨hR, hid, hhash, hsender⟩, hmaker⟩ := hinv.authorized m hm
  exact ⟨r, o, hr, ho, ⟨p, hR, hid, hhash, hsender⟩, fun hrole => ⟨p, hmaker hrole, hhash⟩⟩

/-- Address `4` offers, the node takes the offer, and a proof with this signature comes in. -/
def takingRun (signature : Signature) : List App.Input :=
  let proof : CommitmentProof := { commitmentSig := none, secret := 3, secretHash := 3,
                                   offerId := 7, signature := some signature }
  let env : Env := { now := 0, orderUuid := 1, offerUuid := 2 }
  [.broadcast { offer := { offerId := 7, askToken := 1, askAmount := 5, bidToken := 2,
                           bidAmount := 5, timeout := 100 },
                commitmentProof := proof, signature := some 4 },
   .handle env, .postLimitOrder 1 "SELL" (.int 5) (Float.Model.ofInt 1), .handle env,
   .commitmentProof proof, .handle env]

def takingMatch (signature : Signature) : Match where
  offer := some 0
  traderRole := .taker
  target := 4
  commitmentProof := { commitmentSig := none, secret := 3, secretHash := 3, offerId := 7,
                       signature := some signature }

theorem proved_payment_authorized : ∃ r o, (takingMatch 9).offer = some r ∧
    (App.run .plain { baseToken := 1, quoteToken := 2 } 9 (takingRun 9)).node.offers[r]? = some o ∧
    (∃ p ∈ proofsReceived (takingRun 9), p.offerId = o.offerId ∧
      p.secretHash = (takingMatch 9).getSecretHash ∧ sender .plain p = .ok 9) ∧
    ((takingMatch 9).traderRole = .maker → ∃ p, o.proof = some p ∧
      p.secretHash = (takingMatch 9).getSecretHash) :=
  payments_authorized .plain { baseToken := 1, quoteToken := 2 } 9 (takingRun 9)
    (by decide +kernel) (takingMatch 9) (by decide +kernel)

/-- The node pays on a proof that the maker signed. -/
theorem forged_proof_paid :
    Event.trader (.swapInit (takingMatch 4)) ∈
      (App.run .plain { baseToken := 1, quoteToken := 2 } 9 (takingRun 4)).node.events ∧
    ∀ p ∈ proofsReceived (takingRun 4), sender .plain p ≠ .ok 9 := by
  decide +kernel

end

end RaidexNode
end Raidex
