import Mathlib.Algebra.Order.BigOperators.Group.List
import Mathlib.Algebra.Order.Field.Basic
import Mathlib.Algebra.Order.Ring.Rat
import Mathlib.Data.List.Basic
import Mathlib.Data.List.Forall2
import Mathlib.Data.List.Perm.Basic
import Mathlib.Data.List.Perm.Subperm
import Mathlib.Order.MinMax

/-!
# Raidex.Lib.ListUpdate

Lists with one entry appended, replaced or crossed off.

* `getElem?_concat_cases`, `getElem?_set_cases`: where an entry of the new list comes from.
* `flatMap_set_perm`: what replacing an entry does to a concatenation over the entries.
* `pair_diff_filterMap_eq_nil_iff`: when crossing off leaves nothing of a pair.
* `min?_concat`, `max?_concat`: the least and the greatest entry after one more;
  `Perm.min?_eq`, `Perm.max?_eq`: they do not depend on the order; `mean_between`: the mean is
  between them.
* `Subperm.sum_map_le`, `Sublist.sum_map_lt`: some of the entries have at most the sum of all, or
  less.
* `exists_of_mem_zip`: names kept beside a list whose entries are replaced.
* `filterMap_cons_toList`: what a function that need not be defined picks from a list, and of its
  first entry.
* `filterMap_sublist_filterMap`, `length_filterMap_lt`: what a function that is defined on fewer
  entries picks.
-/

namespace List

variable {α β : Type*}

theorem getElem?_concat_cases {l : List α} {a b : α} {i : Nat} (h : (l ++ [a])[i]? = some b) :
    (i < l.length ∧ l[i]? = some b) ∨ (i = l.length ∧ b = a) := by
  rcases Nat.lt_trichotomy i l.length with hi | rfl | hi
  · rw [getElem?_append_left hi] at h; exact .inl ⟨hi, h⟩
  · rw [getElem?_concat_length] at h; exact .inr ⟨rfl, (Option.some.inj h).symm⟩
  · rw [getElem?_eq_none (by simp; omega)] at h; cases h

theorem getElem?_set_cases {l : List α} {a b : α} {i j : Nat} (h : (l.set i a)[j]? = some b) :
    (j = i ∧ b = a) ∨ (j ≠ i ∧ l[j]? = some b) := by
  by_cases hj : j = i
  · subst hj
    have hlt : j < (l.set j a).length := (getElem?_eq_some_iff.mp h).1
    rw [getElem?_set_self (by simpa using hlt)] at h
    exact .inl ⟨rfl, (Option.some.inj h).symm⟩
  · rw [getElem?_set_ne (Ne.symm hj)] at h
    exact .inr ⟨hj, h⟩

/-- Entries with names, when the names are kept and the entries are replaced. -/
theorem exists_of_mem_zip {γ : Type*} {R : β → γ → Prop} {xs : List (α × β)} {ys : List γ}
    (h : Forall₂ R (xs.map Prod.snd) ys) {x : α × γ} (hx : x ∈ (xs.map Prod.fst).zip ys) :
    ∃ b, (x.1, b) ∈ xs ∧ R b x.2 := by
  induction xs generalizing ys with
  | nil => cases hx
  | cons p xs ih =>
    cases h with
    | cons hy hys =>
      rcases mem_cons.mp hx with rfl | hx
      · exact ⟨p.2, mem_cons_self, hy⟩
      · obtain ⟨b, hb, hR⟩ := ih hys hx
        exact ⟨b, mem_cons_of_mem p hb, hR⟩

/-- The old entry's share is exchanged for the new entry's. -/
theorem flatMap_set_perm {l : List α} {i : Nat} {a : α} (h : l[i]? = some a) (b : α)
    (f : α → List β) : (l.set i b).flatMap f ++ f a ~ l.flatMap f ++ f b := by
  induction l generalizing i with
  | nil => simp at h
  | cons c l ih =>
    cases i with
    | zero =>
      cases h
      simp only [set_cons_zero, flatMap_cons]
      calc f b ++ l.flatMap f ++ f a ~ f a ++ (f b ++ l.flatMap f) := perm_append_comm
        _ ~ f a ++ (l.flatMap f ++ f b) := perm_append_comm.append_left _
        _ ~ f a ++ l.flatMap f ++ f b := by rw [append_assoc]
    | succ i =>
      simp only [set_cons_succ, flatMap_cons, append_assoc]
      exact (ih h).append_left _

/-- Some of the entries, in any order, have at most the sum of all. -/
theorem Subperm.sum_map_le {M : Type*} [AddCommMonoid M] [PartialOrder M] [IsOrderedAddMonoid M]
    {as bs : List α} (h : bs <+~ as) {f : α → M} (hf : ∀ a ∈ as, 0 ≤ f a) :
    (bs.map f).sum ≤ (as.map f).sum := by
  obtain ⟨cs, hperm, hsub⟩ := h
  rw [← (hperm.map f).sum_eq]
  refine (hsub.map f).sum_le_sum ?_
  intro v hv
  obtain ⟨a, ha, rfl⟩ := mem_map.mp hv
  exact hf a ha

/-- Positive entries of which some are left out have a smaller sum. -/
theorem Sublist.sum_map_lt {as bs : List α} (h : bs <+ as) (hlt : bs.length < as.length)
    {f : α → ℚ} (hf : ∀ a ∈ as, 0 < f a) : (bs.map f).sum < (as.map f).sum := by
  induction h with
  | slnil => exact absurd hlt (Nat.lt_irrefl _)
  | @cons cs ds a hsub ih =>
    have hle := hsub.subperm.sum_map_le fun b hb => (hf b (mem_cons_of_mem a hb)).le
    rw [map_cons, sum_cons]
    exact hle.trans_lt (lt_add_of_pos_left _ (hf a mem_cons_self))
  | @cons_cons cs ds a hsub ih =>
    rw [map_cons, sum_cons, map_cons, sum_cons]
    have htail := ih (Nat.lt_of_succ_lt_succ hlt) fun b hb => hf b (mem_cons_of_mem a hb)
    exact (add_lt_add_iff_left _).mpr htail

theorem filterMap_cons_toList (f : α → Option β) (a : α) (l : List α) :
    (a :: l).filterMap f = (f a).toList ++ l.filterMap f := by
  rw [filterMap_cons]
  cases f a with
  | none => rfl
  | some b => rfl

/-- A function that is defined on fewer entries. -/
theorem filterMap_sublist_filterMap {f g : α → Option β} {l : List α}
    (h : ∀ a ∈ l, f a = none ∨ f a = g a) : l.filterMap f <+ l.filterMap g := by
  induction l with
  | nil => exact Sublist.refl _
  | cons a l ih =>
    have htail := ih fun b hb => h b (mem_cons_of_mem a hb)
    cases hg : g a with
    | none =>
      have hf : f a = none := (h a mem_cons_self).elim id fun heq => heq.trans hg
      rwa [filterMap_cons_none hf, filterMap_cons_none hg]
    | some c =>
      rw [filterMap_cons_some hg]
      rcases h a mem_cons_self with hf | hf
      · rw [filterMap_cons_none hf]
        exact htail.cons c
      · rw [filterMap_cons_some (hf.trans hg)]
        exact htail.cons_cons c

theorem length_filterMap_lt {f g : α → Option β} {l : List α}
    (h : ∀ a ∈ l, f a = none ∨ f a = g a) {a : α} (ha : a ∈ l) (hf : f a = none) {b : β}
    (hg : g a = some b) : (l.filterMap f).length < (l.filterMap g).length := by
  induction l with
  | nil => cases ha
  | cons c l ih =>
    have htail : ∀ a ∈ l, f a = none ∨ f a = g a := fun a ha => h a (mem_cons_of_mem c ha)
    rcases mem_cons.mp ha with rfl | ha
    · rw [filterMap_cons_none hf, filterMap_cons_some hg, length_cons]
      exact Nat.lt_succ_of_le (filterMap_sublist_filterMap htail).length_le
    · have hlt := ih htail ha
      cases hgc : g c with
      | none =>
        have hfc : f c = none := (h c mem_cons_self).elim id fun heq => heq.trans hgc
        rwa [filterMap_cons_none hfc, filterMap_cons_none hgc]
      | some d =>
        rw [filterMap_cons_some hgc, length_cons]
        rcases h c mem_cons_self with hfc | hfc
        · rw [filterMap_cons_none hfc]
          exact Nat.lt_succ_of_lt hlt
        · rw [filterMap_cons_some (hfc.trans hgc), length_cons]
          exact Nat.succ_lt_succ hlt

section

variable [DecidableEq β]

theorem singleton_diff_eq_nil_iff {b : β} {l : List β} : [b].diff l = [] ↔ b ∈ l := by
  by_cases h : b ∈ l
  · simp [List.cons_diff, h]
  · simp [List.cons_diff, h]

omit [DecidableEq β] in
theorem mem_filterMap_iff_getElem? {f : α → Option β} {l : List α} {b : β} :
    b ∈ l.filterMap f ↔ ∃ i : Nat, l[i]?.bind f = some b := by
  simp only [mem_filterMap, Option.bind_eq_some_iff]
  constructor
  · rintro ⟨a, ha, hb⟩
    obtain ⟨i, hi⟩ := mem_iff_getElem?.mp ha
    exact ⟨i, a, hi, hb⟩
  · rintro ⟨i, a, hi, hb⟩
    exact ⟨a, mem_of_getElem? hi, hb⟩

/-- Both elements of a pair are crossed off when they are met at different positions. -/
theorem pair_diff_filterMap_eq_nil_iff {f : α → Option β} {a b : β} {l : List α} :
    [a, b].diff (l.filterMap f) = [] ↔
      ∃ i j : Nat, i ≠ j ∧ l[i]?.bind f = some a ∧ l[j]?.bind f = some b := by
  induction l with
  | nil => simp
  | cons c l ih =>
    -- positions of the tail are one less
    have hshift : (∃ i j : Nat, i ≠ j ∧ l[i]?.bind f = some a ∧ l[j]?.bind f = some b) →
        ∃ i j : Nat, i ≠ j ∧ (c :: l)[i]?.bind f = some a ∧ (c :: l)[j]?.bind f = some b := by
      rintro ⟨i, j, hij, hi, hj⟩
      exact ⟨i + 1, j + 1, by omega, hi, hj⟩
    cases hc : f c with
    | none =>
      rw [filterMap_cons_none hc, ih]
      refine ⟨hshift, ?_⟩
      rintro ⟨i, j, hij, hi, hj⟩
      cases i with
      | zero => simp [hc] at hi
      | succ i =>
        cases j with
        | zero => simp [hc] at hj
        | succ j => exact ⟨i, j, by omega, hi, hj⟩
    | some d =>
      rw [filterMap_cons_some hc, diff_cons]
      by_cases hda : d = a
      · subst hda
        rw [erase_cons_head, singleton_diff_eq_nil_iff, mem_filterMap_iff_getElem?]
        constructor
        · rintro ⟨j, hj⟩
          exact ⟨0, j + 1, by omega, by simpa using hc, hj⟩
        · rintro ⟨i, j, hij, hi, hj⟩
          cases j with
          | succ j => exact ⟨j, hj⟩
          | zero =>
            obtain rfl : d = b := by simpa [hc] using hj
            cases i with
            | zero => omega
            | succ i => exact ⟨i, hi⟩
      · by_cases hdb : d = b
        · subst hdb
          rw [erase_cons_tail (by simpa using Ne.symm hda), erase_cons_head,
            singleton_diff_eq_nil_iff, mem_filterMap_iff_getElem?]
          constructor
          · rintro ⟨i, hi⟩
            exact ⟨i + 1, 0, by omega, hi, by simpa using hc⟩
          · rintro ⟨i, j, hij, hi, hj⟩
            cases i with
            | zero => exact absurd (by simpa [hc] using hi) hda
            | succ i => exact ⟨i, hi⟩
        · rw [erase_of_not_mem (by simp [hda, hdb]), ih]
          refine ⟨hshift, ?_⟩
          rintro ⟨i, j, hij, hi, hj⟩
          cases i with
          | zero => exact absurd (by simpa [hc] using hi) hda
          | succ i =>
            cases j with
            | zero => exact absurd (by simpa [hc] using hj) hdb
            | succ j => exact ⟨i, j, by omega, hi, hj⟩

end

/-! ## Least and greatest entries -/

section

variable {α : Type*} [LinearOrder α] {l l' : List α}

theorem min?_concat (l : List α) (a : α) :
    (l ++ [a]).min? = if l.min?.all fun m => a < m then some a else l.min? := by
  cases h : l.min? with
  | none =>
    rw [min?_eq_none_iff.mp h]
    rfl
  | some m =>
    obtain ⟨hmem, hle⟩ := min?_eq_some_iff.mp h
    rw [Option.all_some]
    split
    next hdec =>
      have hlt := of_decide_eq_true hdec
      refine min?_eq_some_iff.mpr ⟨mem_append_right _ (mem_singleton_self a), ?_⟩
      rw [forall_mem_append]
      exact ⟨fun b hb => hlt.le.trans (hle b hb), forall_mem_singleton.mpr le_rfl⟩
    next hdec =>
      have hlt := of_decide_eq_false (eq_false_of_ne_true hdec)
      refine min?_eq_some_iff.mpr ⟨mem_append_left _ hmem, ?_⟩
      rw [forall_mem_append]
      exact ⟨hle, forall_mem_singleton.mpr (not_lt.mp hlt)⟩

theorem max?_concat (l : List α) (a : α) :
    (l ++ [a]).max? = if l.max?.all fun m => m < a then some a else l.max? := by
  cases h : l.max? with
  | none =>
    rw [max?_eq_none_iff.mp h]
    rfl
  | some m =>
    obtain ⟨hmem, hle⟩ := max?_eq_some_iff.mp h
    rw [Option.all_some]
    split
    next hdec =>
      have hlt := of_decide_eq_true hdec
      refine max?_eq_some_iff.mpr ⟨mem_append_right _ (mem_singleton_self a), ?_⟩
      rw [forall_mem_append]
      exact ⟨fun b hb => (hle b hb).trans hlt.le, forall_mem_singleton.mpr le_rfl⟩
    next hdec =>
      have hlt := of_decide_eq_false (eq_false_of_ne_true hdec)
      refine max?_eq_some_iff.mpr ⟨mem_append_left _ hmem, ?_⟩
      rw [forall_mem_append]
      exact ⟨hle, forall_mem_singleton.mpr (not_lt.mp hlt)⟩

/-- The least entry does not depend on the order. -/
theorem Perm.min?_eq (h : l ~ l') : l.min? = l'.min? := by
  refine Option.ext ?_
  intro m
  rw [min?_eq_some_iff, min?_eq_some_iff, h.mem_iff]
  simp only [h.mem_iff]

theorem Perm.max?_eq (h : l ~ l') : l.max? = l'.max? := by
  refine Option.ext ?_
  intro m
  rw [max?_eq_some_iff, max?_eq_some_iff, h.mem_iff]
  simp only [h.mem_iff]

/-- The mean of the entries is between the bounds of the entries. -/
theorem mean_between {l : List ℚ} (hne : l ≠ []) {lo hi : ℚ} (hlo : ∀ x ∈ l, lo ≤ x)
    (hhi : ∀ x ∈ l, x ≤ hi) : lo ≤ l.sum / l.length ∧ l.sum / l.length ≤ hi := by
  have hlen : (0 : ℚ) < l.length := Nat.cast_pos.mpr (length_pos_of_ne_nil hne)
  have hlow := card_nsmul_le_sum l lo hlo
  have hhigh := sum_le_card_nsmul l hi hhi
  rw [nsmul_eq_mul, mul_comm] at hlow hhigh
  exact ⟨(le_div_iff₀ hlen).mpr hlow, (div_le_iff₀ hlen).mpr hhigh⟩

end

end List
