import Raidex.CommitmentService.Certificates

/-!
# Raidex.CommitmentService.Engagements

The swaps the service makes of one offer.

* `HasTaker`: the service has accepted a taker; `Withdrawn`: it has proved the cancellation.
* `OneSwap`: there is one swap of the offer, its maker is known, and not both of these happen.
* `Served.hasTaker_cases`: only the deposit of a taker engages it.
-/

namespace Raidex
namespace CommitmentService

namespace Service

/-- A swap of the offer has accepted a taker. -/
def HasTaker (s : Service) (offerId : Nat) : Prop :=
  ∃ x ∈ s.objects, x.offerId = offerId ∧ x.takerCommitmentMsg.isSome = true

/-- The service has proved the cancellation of the offer. -/
def Withdrawn (s : Service) (offerId : Nat) : Prop :=
  ∃ q topic, (.cancellationProof q, topic) ∈ s.messageQueue ∧ q.offerId = offerId

/-- The transfer is the deposit of a taker that the swap is waiting for. -/
def AwaitsDeposit (s : Service) (r : TransferReceipt) : Prop :=
  ∃ x ∈ s.swap? r.identifier, x.state = .waitForTaker ∧ r.initiator ∈ x.takerCommitmentPool

instance (s : Service) (offerId : Nat) : Decidable (s.HasTaker offerId) :=
  inferInstanceAs (Decidable (∃ x ∈ _, _ ∧ _))

instance (s : Service) (r : TransferReceipt) : Decidable (s.AwaitsDeposit r) :=
  inferInstanceAs (Decidable (∃ x ∈ _, _ ∧ _))

end Service

variable {C : Crypto} {autoSpawnTimeout : Bool} {offerId now : Nat} {secret : Hash}

/-! ## One swap -/

section

variable {p p' : Phase C} {call : Call} {outs : List Output} {err : Option PyError}

/-- Commitment proofs are sent to a maker and to a taker that is engaged. -/
theorem Phase.Step.proofSent {q : CommitmentProof} {topic : Option Address}
    (h : Phase.Step autoSpawnTimeout offerId secret now p call p' outs err)
    (hq : (.commitmentProof q, topic) ∈ CommitmentService.sent outs) : q.offerId = offerId ∧
      ((∃ m, p' = .waitForTaker m .empty ∧ topic = some m.address) ∨
        ∃ e, p' = .executing e .neither) := by
  cases h with
  | makerCommitted _ => split at hq <;> simp [CommitmentService.sent, Output.envelope] at hq
  | @makerDeposited m =>
    obtain ⟨rfl, rfl⟩ : q = proof offerId secret m ∧ topic = some m.address := by
      simpa [CommitmentService.sent, Output.envelope, sendProof] using hq
    exact ⟨rfl, .inl ⟨m, rfl, rfl⟩⟩
  | @takerDeposited e =>
    obtain ⟨rfl, -⟩ : q = proof offerId secret e.taker ∧ topic = some e.taker.address := by
      simpa [CommitmentService.sent, Output.envelope, sendProof, broadcastOfferTaken] using hq
    exact ⟨rfl, .inr ⟨e, rfl⟩⟩
  | _ =>
    simp [CommitmentService.sent, Output.envelope, bounce, sendCancellationProof, settle,
      broadcastCompleted, refundWithFee, List.filterMap_cons] at hq

/-- The cancellation is proved when the swap ends without a taker. -/
theorem Phase.Step.cancellationSent {q : CancellationProof} {topic : Option Address}
    (h : Phase.Step autoSpawnTimeout offerId secret now p call p' outs err)
    (hq : (.cancellationProof q, topic) ∈ CommitmentService.sent outs) :
    q.offerId = offerId ∧ ∃ m pool, p' = .untraded m pool := by
  cases h with
  | makerCommitted _ => split at hq <;> simp [CommitmentService.sent, Output.envelope] at hq
  | @untraded m pool =>
    obtain ⟨rfl, -⟩ : q = { offerId := offerId, cancellationProof := proof offerId secret m
                            signature := none } ∧ topic = some m.address := by
      simpa [CommitmentService.sent, Output.envelope, sendCancellationProof, bounce,
        List.filterMap_cons] using hq
    exact ⟨rfl, m, pool, rfl⟩
  | _ =>
    simp [CommitmentService.sent, Output.envelope, bounce, sendProof, settle, broadcastOfferTaken,
      broadcastCompleted, refundWithFee, List.filterMap_cons] at hq

/-- A taker is engaged by its deposit. -/
theorem Phase.Step.engages
    (h : Phase.Step autoSpawnTimeout offerId secret now p call p' outs err)
    (hold : (p.toSwap offerId secret).takerCommitmentMsg = none)
    (hnew : (p'.toSwap offerId secret).takerCommitmentMsg.isSome = true) :
    ∃ e : Engagement C, p = .waitForTaker e.maker e.pool ∧
      call = .transferReceipt e.taker.receipt := by
  cases h with
  | takerDeposited => exact ⟨_, rfl, rfl⟩
  | undeclared _ => rw [hold] at hnew; cases hnew
  | makerExecuted | takerExecuted _ | takerCompleted | makerCompleted | executionIgnored _ _
  | executionUnrecoverable _ | executionBounced | failed _ => cases hold
  | _ => cases hnew

/-- A processed swap stays as it is. -/
theorem Phase.Step.processed
    (h : Phase.Step autoSpawnTimeout offerId secret now p call p' outs err)
    (hp : (p.toSwap offerId secret).state = .processed) : p' = p := by
  cases h with
  | undeclared _ => rfl
  | makerExecuted | takerExecuted _ | takerCompleted | makerCompleted => cases hp
  | executionIgnored _ _ | executionUnrecoverable _ | executionBounced => rfl
  | @failed e x call _ => cases x <;> cases hp
  | _ => cases hp

end

/-! ## The service -/

/-- The service makes one swap of the offer, for its maker, and does not prove the cancellation of
a swap with a taker. -/
structure OneSwap (C : Crypto) (maker taker : Address) (offerId : Nat) (s : Service) : Prop where
  registry : Registry C s
  single : ∀ (i j : Nat) (x y : SwapCommitment), s.objects[i]? = some x → s.objects[j]? = some y →
    x.offerId = offerId → y.offerId = offerId → i = j
  committed : ∀ x ∈ s.objects, x.offerId = offerId →
    ∃ c, x.makerCommitmentMsg = some c ∧ sender C c = .ok maker
  proved : ∀ q, (.commitmentProof q, some taker) ∈ s.messageQueue → q.offerId = offerId →
    s.HasTaker offerId
  withdrawn : s.Withdrawn offerId →
    ∃ x ∈ s.objects, x.offerId = offerId ∧ x.state = .processed ∧ x.takerCommitmentMsg = none

section

variable {maker taker : Address} {s s' : Service} {input : ServiceInput} {err : Option PyError}

theorem OneSwap.init : OneSwap C maker taker offerId .init where
  registry := .init
  single i j x y hx := by simp [Service.init] at hx
  committed x hx := by simp [Service.init] at hx
  proved q hq := by simp [Service.init] at hq
  withdrawn h := by
    obtain ⟨q, topic, hq, -⟩ := h
    simp [Service.init] at hq

/-- No taker is engaged for an offer that is withdrawn. -/
theorem OneSwap.not_withdrawn (h : OneSwap C maker taker offerId s) (ht : s.HasTaker offerId) :
    ¬ s.Withdrawn offerId := by
  intro hw
  obtain ⟨x, hx, hxid, -, hnone⟩ := h.withdrawn hw
  obtain ⟨y, hy, hyid, hsome⟩ := ht
  obtain ⟨i, hi⟩ := List.mem_iff_getElem?.mp hx
  obtain ⟨j, hj⟩ := List.mem_iff_getElem?.mp hy
  obtain rfl := h.single i j x y hi hj hxid hyid
  cases hi.symm.trans hj
  rw [hnone] at hsome; cases hsome

theorem Service.taken_messageQueue (s : Service) (e : ServiceEvent) :
    (s.taken e).messageQueue = s.messageQueue := by
  cases e <;> rfl

/-- A swap that is called stays in its place, and what it says of its taker stays. -/
theorem Served.objects_cases (h : Served C s input s' err) {i : Nat} {x : SwapCommitment}
    (hx : s.objects[i]? = some x) :
    ∃ x', s'.objects[i]? = some x' ∧ x'.offerId = x.offerId ∧ Kept x x' ∧
      (x.state = .processed → x' = x) := by
  have hsame : ∃ x', s.objects[i]? = some x' ∧ x'.offerId = x.offerId ∧ Kept x x' ∧
      (x.state = .processed → x' = x) := ⟨x, hx, rfl, .refl x, fun _ => rfl⟩
  cases h with
  | @called _ j id secret call outs _ p p' _ ho hstep =>
    simp only [Service.afterCall, Service.taken_objects]
    by_cases hij : i = j
    · subst hij
      cases hx.symm.trans ho
      refine ⟨_, List.getElem?_set_self (List.getElem?_eq_some_iff.mp ho).1, ?_, hstep.kept, ?_⟩
      · rw [Phase.toSwap_offerId, Phase.toSwap_offerId]
      · exact fun hp => by rw [hstep.processed hp]
    · rw [List.getElem?_set_ne (Ne.symm hij)]; exact hsame
  | created hl hstep =>
    simp only [Service.created]
    rw [List.getElem?_append_left (List.getElem?_eq_some_iff.mp hx).1]
    exact hsame
  | ignored _ _ => rw [Service.taken_objects]; exact hsame

theorem Served.hasTaker (h : Served C s input s' err) (ht : s.HasTaker offerId) :
    s'.HasTaker offerId := by
  obtain ⟨x, hx, hid, hsome⟩ := ht
  obtain ⟨i, hi⟩ := List.mem_iff_getElem?.mp hx
  obtain ⟨x', hi', hid', hkept, -⟩ := h.objects_cases hi
  obtain ⟨c, hc⟩ := Option.isSome_iff_exists.mp hsome
  exact ⟨x', List.mem_of_getElem? hi', hid'.trans hid, by rw [hkept.takerCommitmentMsg c hc]; rfl⟩

/-- A taker was engaged before, or makes its deposit now. -/
theorem Served.hasTaker_cases (hs : Registry C s) (h : Served C s input s' err)
    (ht : s'.HasTaker offerId) : s.HasTaker offerId ∨
      ∃ r, input.event = .transferReceipt r ∧ r.identifier = offerId ∧ s.AwaitsDeposit r := by
  obtain ⟨x, hx, rfl, hsome⟩ := ht
  cases h with
  | @called _ i id secret call outs _ p p' hroute ho hstep =>
    simp only [Service.afterCall, Service.taken_objects] at hx
    rcases List.mem_or_eq_of_mem_set hx with hx | rfl
    · exact .inl ⟨x, hx, rfl, hsome⟩
    rw [Phase.toSwap_offerId]
    cases hold : (p.toSwap id secret).takerCommitmentMsg with
    | some c =>
      exact .inl ⟨_, List.mem_of_getElem? ho, Phase.toSwap_offerId .., by rw [hold]; rfl⟩
    | none =>
      obtain ⟨e, rfl, rfl⟩ := hstep.engages hold hsome
      have hreceipt : input.event.receipt = some e.taker.receipt :=
        (Service.route_receipt hroute).symm
      have hevent : input.event = .transferReceipt e.taker.receipt := by
        cases he : input.event <;> rw [he] at hreceipt <;> cases hreceipt
        rfl
      refine .inr ⟨_, hevent, ?_, _, (hs.route_transfer hroute ho hreceipt).1, rfl, ?_⟩
      · rw [(hs.route_offerId hroute ho).2 _ rfl, Phase.toSwap_offerId]
      · exact AList.lookup_isSome.mp (by rw [Phase.toSwap, withMaker]; rw [e.selected]; rfl)
  | created hl hstep =>
    rcases List.mem_append.mp hx with hx | hx
    · exact .inl ⟨x, hx, rfl, hsome⟩
    · obtain rfl := List.mem_singleton.mp hx
      cases hsome
  | ignored _ _ =>
    rw [Service.taken_objects] at hx
    exact .inl ⟨x, hx, rfl, hsome⟩

/-- A swap was there before, or is made of a first commitment. -/
theorem Served.objects_new (h : Served C s input s' err) {i : Nat} {x' : SwapCommitment}
    (hx' : s'.objects[i]? = some x') :
    (∃ x, s.objects[i]? = some x ∧ x'.offerId = x.offerId ∧ Kept x x') ∨
    ∃ secret c, input.event = .commitment secret c ∧ s.swaps.lookup c.offerId = none ∧
      i = s.objects.length ∧ x'.offerId = c.offerId ∧ x'.makerCommitmentMsg = some c := by
  by_cases hi : i < s.objects.length
  · obtain ⟨x'', hx'', hid, hkept, -⟩ := h.objects_cases (List.getElem?_eq_getElem hi)
    cases hx'.symm.trans hx''
    exact .inl ⟨_, List.getElem?_eq_getElem hi, hid, hkept⟩
  right
  have hi' : i < s'.objects.length := (List.getElem?_eq_some_iff.mp hx').1
  cases h with
  | called _ _ _ =>
    simp only [Service.afterCall, Service.taken_objects, List.length_set] at hi'
    exact absurd hi' hi
  | created hl _ =>
    rcases List.getElem?_concat_cases hx' with ⟨hlt, -⟩ | ⟨hi, rfl⟩
    · exact absurd hlt hi
    · exact ⟨_, _, rfl, hl, hi, rfl, rfl⟩
  | ignored _ _ =>
    rw [Service.taken_objects] at hi'
    exact absurd hi' hi

/-- A message was queued before, or the called swap sends it. -/
theorem Served.messageQueue_cases (h : Served C s input s' err) {e : Envelope}
    (he : e ∈ s'.messageQueue) : e ∈ s.messageQueue ∨
      ∃ (i : Nat) (id : Nat) (secret : Hash) (p p' : Phase C) (call : Call) (outs : List Output),
        s.objects[i]? = some (p.toSwap id secret) ∧
        Phase.Step true id secret input.now p call p' outs err ∧ e ∈ sent outs ∧
        s'.objects[i]? = some (p'.toSwap id secret) := by
  cases h with
  | called hroute ho hstep =>
    simp only [Service.afterCall, Service.taken_messageQueue, Service.taken_objects] at he ⊢
    refine (List.mem_append.mp he).imp_right ?_
    intro he
    exact ⟨_, _, _, _, _, _, _, ho, hstep, he,
      List.getElem?_set_self (List.getElem?_eq_some_iff.mp ho).1⟩
  | created _ _ => exact .inl he
  | ignored _ _ => rw [Service.taken_messageQueue] at he; exact .inl he

/-- The first commitment to the offer is the maker's, and there is no other first one. -/
def FirstFromMaker (C : Crypto) (maker : Address) (offerId : Nat) (s : Service) (e : ServiceEvent) :
    Prop :=
  ∀ secret c, e = .commitment secret c → c.offerId = offerId → s.swaps.lookup offerId = none →
    sender C c = .ok maker ∧ ∀ x ∈ s.objects, x.offerId ≠ offerId

theorem OneSwap.served (hs : OneSwap C maker taker offerId s) (hne : maker ≠ taker)
    (h : Served C s input s' err) (hfirst : FirstFromMaker C maker offerId s input.event) :
    OneSwap C maker taker offerId s' := by
  have hnew {secret : Hash} {c : Commitment} (he : input.event = .commitment secret c)
      (hl : s.swaps.lookup c.offerId = none) (hid : c.offerId = offerId) :
      sender C c = .ok maker ∧ ∀ x ∈ s.objects, x.offerId ≠ offerId :=
    hfirst secret c he hid (hid ▸ hl)
  refine ⟨hs.registry.served h, ?_, ?_, ?_, ?_⟩
  · intro i j x y hx hy hxid hyid
    rcases h.objects_new hx with ⟨x₀, hx₀, hid, -⟩ | ⟨secret, c, he, hl, rfl, hid, -⟩ <;>
      rcases h.objects_new hy with ⟨y₀, hy₀, hid', -⟩ | ⟨secret', c', he', hl', rfl, hid', -⟩
    · exact hs.single i j x₀ y₀ hx₀ hy₀ (hid.symm.trans hxid) (hid'.symm.trans hyid)
    · exact absurd (hid.symm.trans hxid)
        ((hnew he' hl' (hid'.symm.trans hyid)).2 x₀ (List.mem_of_getElem? hx₀))
    · exact absurd (hid'.symm.trans hyid)
        ((hnew he hl (hid.symm.trans hxid)).2 y₀ (List.mem_of_getElem? hy₀))
    · rfl
  · intro x hx hxid
    obtain ⟨i, hi⟩ := List.mem_iff_getElem?.mp hx
    rcases h.objects_new hi with ⟨x₀, hx₀, hid, hkept⟩ | ⟨secret, c, he, hl, -, hid, hc⟩
    · obtain ⟨c, hc, hsender⟩ := hs.committed x₀ (List.mem_of_getElem? hx₀) (hid.symm.trans hxid)
      exact ⟨c, hkept.makerCommitmentMsg c hc, hsender⟩
    · exact ⟨c, hc, (hnew he hl (hid.symm.trans hxid)).1⟩
  · intro q hq hid
    rcases h.messageQueue_cases hq with hq | ⟨i, id, secret, p, p', call, outs, ho, hstep, hq, ho'⟩
    · exact h.hasTaker (hs.proved q hq hid)
    obtain ⟨hqid, ⟨m, rfl, htopic⟩ | ⟨e, rfl⟩⟩ := hstep.proofSent hq
    · -- the swap is the maker's, and so is the deposit
      obtain ⟨c, hc, hsender⟩ := hs.committed _ (List.mem_of_getElem? ho)
        ((Phase.toSwap_offerId ..).trans (hqid.symm.trans hid))
      obtain rfl : m.commitment = c := Option.some.inj (hstep.kept.makerCommitmentMsg c hc)
      have haddress : m.address = maker := Except.ok.inj (m.committed.symm.trans hsender)
      exact absurd (haddress.symm.trans (Option.some.inj htopic).symm) hne
    · exact ⟨_, List.mem_of_getElem? ho',
        (Phase.toSwap_offerId ..).trans (hqid.symm.trans hid), rfl⟩
  · rintro ⟨q, topic, hq, hid⟩
    rcases h.messageQueue_cases hq with hq | ⟨i, id, secret, p, p', call, outs, ho, hstep, hq, ho'⟩
    · obtain ⟨x, hx, hxid, hprocessed, hnone⟩ := hs.withdrawn ⟨q, topic, hq, hid⟩
      obtain ⟨i, hi⟩ := List.mem_iff_getElem?.mp hx
      obtain ⟨x', hi', -, -, hfixed⟩ := h.objects_cases hi
      obtain rfl := hfixed hprocessed
      exact ⟨x', List.mem_of_getElem? hi', hxid, hprocessed, hnone⟩
    · obtain ⟨hqid, m, pool, rfl⟩ := hstep.cancellationSent hq
      exact ⟨_, List.mem_of_getElem? ho',
        (Phase.toSwap_offerId ..).trans (hqid.symm.trans hid), rfl,
        rfl⟩

/-- What is queued stays queued. -/
theorem Served.withdrawn (h : Served C s input s' err) (hw : s.Withdrawn offerId) :
    s'.Withdrawn offerId := by
  obtain ⟨q, topic, hq, hid⟩ := hw
  refine ⟨q, topic, ?_, hid⟩
  cases h with
  | called _ _ _ =>
    simp only [Service.afterCall, Service.taken_messageQueue]
    exact List.mem_append_left _ hq
  | created _ _ => exact hq
  | ignored _ _ => rw [Service.taken_messageQueue]; exact hq

end

end CommitmentService
end Raidex
