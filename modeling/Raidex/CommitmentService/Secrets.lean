import Raidex.CommitmentService.Engagements

/-!
# Raidex.CommitmentService.Secrets

What a commitment proof says of the swap of its offer.

* `Unmade`: a commitment that makes a swap is to an offer that never had one.
* `Secrets`: then an offer has one swap, and the proofs that are sent are those of its deposits.
* `Secrets.deposited`: a proof has the secret of the swap, which has accepted a deposit for it.
-/

namespace Raidex
namespace CommitmentService

open scoped List

variable {C : Crypto} {s s' : Service} {input : ServiceInput} {err : Option PyError}

/-- What is queued stays queued. -/
theorem Served.messageQueue_subset (h : Served C s input s' err) {e : Envelope}
    (he : e ∈ s.messageQueue) : e ∈ s'.messageQueue := by
  cases h with
  | called _ _ _ =>
    simp only [Service.afterCall, Service.taken_messageQueue]
    exact List.mem_append_left _ he
  | created _ _ => exact he
  | ignored _ _ => rw [Service.taken_messageQueue]; exact he

/-- A commitment that makes a swap is to an offer that never had one. -/
def Service.Unmade (s : Service) : ServiceEvent → Prop
  | .commitment _ c => s.swaps.lookup c.offerId = none → ∀ x ∈ s.objects, x.offerId ≠ c.offerId
  | _ => True

instance (s : Service) (e : ServiceEvent) : Decidable (s.Unmade e) :=
  match e with
  | .commitment .. => inferInstanceAs (Decidable (_ → ∀ _ ∈ _, _))
  | .transferReceipt _ | .swapExecution _ | .cancellation _ | .timer _ => .isTrue trivial

structure Secrets (C : Crypto) (s : Service) : Prop where
  registry : Registry C s
  single : ∀ (i j : Nat) x y, s.objects[i]? = some x → s.objects[j]? = some y →
    x.offerId = y.offerId → i = j
  queued : s.messageQueue.filterMap asProof ~ s.objects.flatMap SwapCommitment.proofs

/-- The swap has accepted a deposit of this address. -/
def SwapCommitment.DepositOf (x : SwapCommitment) (a : Address) : Prop :=
  ∃ k ∈ x.stakes, k.receipt.initiator = a

namespace Secrets

theorem init : Secrets C .init where
  registry := .init
  single i j x y hx := by simp [Service.init] at hx
  queued := .refl _

theorem served (hs : Secrets C s) (h : Served C s input s' err) (hnew : s.Unmade input.event) :
    Secrets C s' := by
  have hfirst {secret : Hash} {c : Commitment} (he : input.event = .commitment secret c)
      (hl : s.swaps.lookup c.offerId = none) {k : Nat} {z : SwapCommitment}
      (hz : s.objects[k]? = some z) : z.offerId ≠ c.offerId := by
    rw [he] at hnew
    exact hnew hl z (List.mem_of_getElem? hz)
  refine ⟨hs.registry.served h, ?_, h.queued hs.queued⟩
  intro i j x y hx hy hid
  rcases h.objects_new hx with ⟨x₀, hx₀, hxid, -⟩ | ⟨secret, c, he, hl, rfl, hxid, -⟩ <;>
    rcases h.objects_new hy with ⟨y₀, hy₀, hyid, -⟩ | ⟨secret', c', he', hl', rfl, hyid, -⟩
  · exact hs.single i j x₀ y₀ hx₀ hy₀ (hxid.symm.trans (hid.trans hyid))
  · exact absurd (hxid.symm.trans (hid.trans hyid)) (hfirst he' hl' hx₀)
  · exact absurd (hyid.symm.trans (hid.symm.trans hxid)) (hfirst he hl hy₀)
  · rfl

theorem unique (hs : Secrets C s) {x y : SwapCommitment} (hx : x ∈ s.objects) (hy : y ∈ s.objects)
    (hid : y.offerId = x.offerId) : y = x := by
  obtain ⟨i, hi⟩ := List.mem_iff_getElem?.mp hx
  obtain ⟨j, hj⟩ := List.mem_iff_getElem?.mp hy
  obtain rfl := hs.single i j x y hi hj hid.symm
  exact Option.some.inj (hj.symm.trans hi)

/-- A proof has the secret of its swap, and its topic has made a deposit there. -/
theorem deposited (hs : Secrets C s) {q : CommitmentProof} {a : Address}
    (hq : (.commitmentProof q, some a) ∈ s.messageQueue) :
    ∃ x ∈ s.objects, x.offerId = q.offerId ∧ q.secret = x.secret ∧ q.secretHash = x.secretHash ∧
      x.DepositOf a := by
  have hmem : (q, some a) ∈ s.messageQueue.filterMap asProof :=
    List.mem_filterMap.mpr ⟨_, hq, rfl⟩
  obtain ⟨x, hx, hproof⟩ := List.mem_flatMap.mp (hs.queued.mem_iff.mp hmem)
  obtain ⟨k, hk, hkq⟩ := List.mem_map.mp hproof
  cases hkq
  exact ⟨x, hx, rfl, rfl, rfl, k, hk, rfl⟩

end Secrets

end CommitmentService
end Raidex
