import Raidex.Lib.ListUpdate
import Raidex.RaidexNode.Handling

/-!
# Raidex.RaidexNode.Models

How the offers of a node change, and which of them the machine has as models.

* `Sound`: the machine has every offer that is not completed, and no two equal ones. Every effect
  keeps it, so removing a completed offer never raises.
-/

namespace Raidex
namespace RaidexNode

open Relation (ReflTransGen)

/-! ## Offers -/

section

variable {s : Node} {r r' : OfferRef} {o o' : Offer} {d : OfferState} {k : OfferKwargs}
  {role : TraderRole} {b : BasicOffer Number}

theorem entered_cases (h : (s.entered r o d k).offers[r']? = some o') :
    (r' = r ∧ o' = o.enter d k) ∨ (r' ≠ r ∧ s.offers[r']? = some o') :=
  List.getElem?_set_cases h

theorem entered_self (ho : s.offers[r]? = some o) :
    (s.entered r o d k).offers[r]? = some (o.enter d k) :=
  List.getElem?_set_self (List.getElem?_eq_some_iff.mp ho).1

theorem entered_other (hne : r' ≠ r) : (s.entered r o d k).offers[r']? = s.offers[r']? :=
  List.getElem?_set_ne hne.symm

theorem created_cases (h : (s.created b role).offers[r']? = some o') :
    s.offers[r']? = some o' ∨ (r' = s.nextOffer ∧ o' = .new b role (!s.hasEqualModel b)) :=
  (List.getElem?_concat_cases h).imp And.right id

theorem created_old (ho : s.offers[r]? = some o) : (s.created b role).offers[r]? = some o := by
  have hr : r < s.offers.length := (List.getElem?_eq_some_iff.mp ho).1
  exact (List.getElem?_append_left hr).trans ho

end

theorem completed_dest (t : OfferTrigger) : t.dest .completed = none := by
  cases t <;> rfl

/-! ## Models -/

structure Sound (s : Node) : Prop where
  known : ∀ r ∈ s.models, r < s.offers.length
  added : ∀ r o, s.offers[r]? = some o → o.isModel = true → o.state ≠ .completed → r ∈ s.models
  distinct : s.models.Pairwise fun r r' => ∀ o o', s.offers[r]? = some o →
    s.offers[r']? = some o' → o.toBasicOffer.equals o'.toBasicOffer = false

namespace Sound

variable {s s' : Node} {r r' : OfferRef} {o o' : Offer} {d : OfferState} {k : OfferKwargs}

theorem init (market : TokenPair) : Sound (.init market) :=
  ⟨by simp [Node.init], by simp [Node.init], .nil⟩

theorem of_eq (hs : Sound s) (hoffers : s'.offers = s.offers) (hmodels : s'.models = s.models) :
    Sound s' := by
  obtain ⟨h1, h2, h3⟩ := hs
  rw [← hoffers, ← hmodels] at *
  exact ⟨h1, h2, h3⟩

theorem created (hs : Sound s) (b : BasicOffer Number) (role : TraderRole) :
    Sound (s.created b role) := by
  have hold {r : OfferRef} {o : Offer} (hr : r ∈ s.models)
      (ho : (s.created b role).offers[r]? = some o) : s.offers[r]? = some o := by
    refine (created_cases ho).resolve_right ?_
    rintro ⟨rfl, -⟩
    exact Nat.lt_irrefl _ (hs.known _ hr)
  have hlength : (s.created b role).offers.length = s.offers.length + 1 := by
    simp [Node.created]
  have hdistinct : s.models.Pairwise fun r r' => ∀ o o', (s.created b role).offers[r]? = some o →
      (s.created b role).offers[r']? = some o' → o.toBasicOffer.equals o'.toBasicOffer = false :=
    hs.distinct.imp_of_mem fun hr hr' hd o o' ho ho' => hd o o' (hold hr ho) (hold hr' ho')
  cases hnew : s.hasEqualModel b with
  | true =>
    have hmodels : (s.created b role).models = s.models := by simp [Node.created, hnew]
    refine ⟨?_, ?_, by rw [hmodels]; exact hdistinct⟩
    · intro r hr
      rw [hmodels] at hr
      exact hlength ▸ Nat.lt_succ_of_lt (hs.known r hr)
    · intro r o ho hmodel hne
      rw [hmodels]
      rcases created_cases ho with ho | ⟨-, rfl⟩
      · exact hs.added r o ho hmodel hne
      · rw [hnew] at hmodel; cases hmodel
  | false =>
    have hmodels : (s.created b role).models = s.models ++ [s.nextOffer] := by
      simp [Node.created, hnew]
    refine ⟨?_, ?_, ?_⟩
    · intro r hr
      rw [hmodels, List.mem_append, List.mem_singleton] at hr
      rcases hr with hr | rfl
      · exact hlength ▸ Nat.lt_succ_of_lt (hs.known r hr)
      · exact hlength ▸ Nat.lt_succ_self _
    · intro r o ho hmodel hne
      rw [hmodels, List.mem_append, List.mem_singleton]
      rcases created_cases ho with ho | ⟨rfl, -⟩
      · exact .inl (hs.added r o ho hmodel hne)
      · exact .inr rfl
    · rw [hmodels, List.pairwise_append]
      refine ⟨hdistinct, List.pairwise_singleton .., ?_⟩
      intro r hr r' hr' o o' ho ho'
      obtain rfl := List.mem_singleton.mp hr'
      have hb : o'.toBasicOffer = b := by
        rcases created_cases ho' with ho' | ⟨-, rfl⟩
        · exact absurd (List.getElem?_eq_some_iff.mp ho').1 (Nat.lt_irrefl _)
        · rfl
      rw [hb]
      have hany := List.any_eq_false.mp hnew r hr
      rw [hold hr ho] at hany
      simpa using hany

theorem entered (hs : Sound s) (ho : s.offers[r]? = some o) (hstate : o.state ≠ .completed) :
    Sound (s.entered r o d k) := by
  have hbasic {r' : OfferRef} {o' : Offer} (h : (s.entered r o d k).offers[r']? = some o') :
      ∃ o₀, s.offers[r']? = some o₀ ∧ o'.toBasicOffer = o₀.toBasicOffer := by
    rcases entered_cases h with ⟨rfl, rfl⟩ | ⟨-, h⟩
    · exact ⟨o, ho, rfl⟩
    · exact ⟨o', h, rfl⟩
  refine ⟨?_, ?_, ?_⟩
  · intro r' hr'
    exact (hs.known r' hr').trans_eq (List.length_set ..).symm
  · intro r' o' h hmodel hne
    rcases entered_cases h with ⟨rfl, rfl⟩ | ⟨-, h⟩
    · exact hs.added _ o ho hmodel hstate
    · exact hs.added r' o' h hmodel hne
  · refine hs.distinct.imp fun hd a a' ha ha' => ?_
    obtain ⟨b, hb, hab⟩ := hbasic ha
    obtain ⟨b', hb', hab'⟩ := hbasic ha'
    rw [hab, hab']
    exact hd b b' hb hb'

/-- The first model that is or equals a model is that model. -/
theorem findModel (hs : Sound s) (ho : s.offers[r]? = some o) (hr : r ∈ s.models) :
    s.findModel r o = some r := by
  obtain ⟨pre, post, hsplit, hpre⟩ := List.eq_append_cons_of_mem hr
  have hd := hs.distinct
  rw [hsplit, List.pairwise_append] at hd
  unfold Node.findModel
  rw [List.find?_eq_some_iff_append]
  refine ⟨by simp, pre, post, hsplit, ?_⟩
  intro r' hr'
  have hne : r' ≠ r := fun h => hpre (h ▸ hr')
  cases ho' : s.offers[r']? with
  | none => simp [hne]
  | some o' =>
    have := hd.2.2 r' hr' r (List.mem_cons_self ..) o' o ho' ho
    simp [hne, this]

/-- An offer that completes is removed, not one that equals it. -/
theorem completed (hs : Sound s) (ho : s.offers[r]? = some o) (hmodel : o.isModel = true)
    (hstate : o.state ≠ .completed) (hr' : (s.entered r o .completed k).findModel r o = some r') :
    Sound { s.entered r o .completed k with models := s.models.erase r' } := by
  have hentered : Sound (s.entered r o .completed k) := hs.entered ho hstate
  have hfind := hentered.findModel (entered_self ho) (hs.added r o ho hmodel hstate)
  obtain rfl : r = r' := Option.some.inj (hfind.symm.trans hr')
  have hsub : (s.models.erase r).Sublist s.models := List.erase_sublist
  refine ⟨fun r' h => hentered.known r' (hsub.subset h), ?_, hentered.distinct.sublist hsub⟩
  intro r' o' h hmodel' hne
  rcases entered_cases h with ⟨rfl, rfl⟩ | ⟨hr', h⟩
  · exact absurd rfl hne
  · exact (List.mem_erase_of_ne hr').mpr (hs.added r' o' h hmodel' hne)

theorem effect {fresh : Prop} {sc : StateChange} (hs : Sound s) (h : Effect fresh sc s s') :
    Sound s' := by
  cases h with
  | quiet h => exact hs.of_eq h.offers h.models
  | created data b role _ => exact hs.created b role
  | taken data e _ => exact (hs.created e.takeOffer .taker).of_eq rfl rfl
  | entered ho hmodel hd hfires =>
    refine hs.entered ho ?_
    intro hc
    rw [hc, completed_dest] at hd
    cases hd
  | provedMatched p hr ho hmodel hstate hm hr' ho' hmodel' hd =>
    have hproved := hs.entered (d := .openProved) (k := { proof := some p }) ho
      (by rw [hstate]; exact nofun)
    refine (hproved.entered (d := .pendingExchanging) (k := {}) ho' ?_).of_eq rfl rfl
    intro hc; rw [hc] at hd; cases hd
  | called offerId initiator p hr ho hmodel hd =>
    refine ((show Sound { s with matchesById := s.matchesById.insert offerId _ }
      from hs.of_eq rfl rfl).entered
      (d := .pendingExchanging) (k := {}) ho ?_).of_eq rfl rfl
    intro hc; rw [hc] at hd; cases hd
  | completed e hm hr ho hmodel hstate hr' =>
    exact hs.completed ho hmodel (by rw [hstate]; exact nofun) hr'

theorem broken {sc : StateChange} (hs : Sound s) (h : Broken sc s s') : Sound s' := by
  cases h with
  | unmatched p hr ho hmodel hstate hm => exact hs.entered ho (by rw [hstate]; exact nofun)
  | called offerId initiator p => exact hs.of_eq rfl rfl
  | unremoved e hm hr ho hmodel hstate =>
    exact (hs.entered ho (by rw [hstate]; exact nofun)).of_eq rfl rfl

end Sound

end RaidexNode
end Raidex
