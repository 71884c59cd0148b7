import Mathlib.Data.List.Nodup

/-!
# Raidex.Lib.SortedDict

A dictionary that iterates in the order of its keys, as the list of its entries.

* `set`, `del`: assignment and deletion; `mem_set`, `mem_del` say what is in it afterwards, and
  `keys_set`, `mem_keys_del` under which keys.
* `Sorted`: the keys increase; both operations keep it. `pairwise_set`: what assignment keeps of
  another relation of the keys.
* `irange`: the entries between two keys; `mem_irange`, `irange_append`.
* `scan`: a loop over entries that collects hits and breaks after an entry that says stop.
  `scan_eq_filter`: it misses no hit when no hit comes after a stop.
-/

namespace SortedDict

variable {K V : Type*} (lt : K → K → Bool) {key k : K} {value v : V} {d : List (K × V)}

/-- A key that the dictionary does not have. -/
def setNew (key : K) (value : V) : List (K × V) → List (K × V)
  | [] => [(key, value)]
  | x :: d => if lt key x.1 then (key, value) :: x :: d else x :: setNew key value d

def Sorted (d : List (K × V)) : Prop := d.Pairwise fun x y => lt x.1 y.1 = true

section

variable {lt}

theorem setNew_perm : (setNew lt key value d).Perm ((key, value) :: d) := by
  induction d with
  | nil => exact .refl _
  | cons x d ih =>
    unfold setNew
    split
    · exact .refl _
    · exact (ih.cons x).trans (.swap ..)

/-- The keys of a sorted dictionary are distinct. -/
theorem Sorted.nodup (hirrefl : ∀ a, lt a a = false) (h : Sorted lt d) :
    (d.map Prod.fst).Nodup := by
  refine List.pairwise_map.mpr (h.imp fun {x y} hxy heq => ?_)
  rw [heq, hirrefl] at hxy
  cases hxy

end

/-! ## Ranges of keys -/

/-- The entries from the first key on and before the second, where there are such bounds. -/
def irange (minimum maximum : Option K) (d : List (K × V)) : List (K × V) :=
  d.filter fun x => minimum.all (fun k => !lt x.1 k) && maximum.all (fun k => lt x.1 k)

section

variable {lt} {minimum maximum : Option K} {x : K × V}

theorem mem_irange : x ∈ irange lt minimum maximum d ↔
    x ∈ d ∧ (∀ k ∈ minimum, lt x.1 k = false) ∧ ∀ k ∈ maximum, lt x.1 k = true := by
  simp only [irange, List.mem_filter, Bool.and_eq_true, Option.all_eq_true, Bool.not_eq_true',
    Option.mem_def]

theorem Sorted.irange (h : Sorted lt d) : Sorted lt (irange lt minimum maximum d) :=
  List.Pairwise.filter _ h

/-- A list that a predicate cuts in two, filtered. -/
theorem filter_split {α : Type*} (p q : α → Bool) {l : List α}
    (h : l.Pairwise fun x y => q x = false → q y = false) :
    l.filter p = l.filter (fun x => p x && q x) ++ l.filter fun x => p x && !q x := by
  induction l with
  | nil => rfl
  | cons x l ih =>
    obtain ⟨hx, hl⟩ := List.pairwise_cons.mp h
    cases hq : q x with
    | true => cases hp : p x <;> simp [hp, hq, ih hl]
    | false =>
      have hnone : l.filter (fun y => p y && q y) = [] :=
        List.filter_eq_nil_iff.mpr fun y hy => by simp [hx y hy hq]
      have htail := ih hl
      cases hp : p x <;> simp [hp, hq, hnone, htail]

/-- Two ranges that meet at a key between their other bounds are one. -/
theorem irange_append (htrans : ∀ a b c, lt a b = true → lt b c = true → lt a c = true)
    (h : Sorted lt d) (hmin : ∀ k ∈ minimum, k = key ∨ lt k key = true)
    (hmax : ∀ k ∈ maximum, key = k ∨ lt key k = true) : irange lt minimum maximum d =
      irange lt minimum (some key) d ++ irange lt (some key) maximum d := by
  have hcut : d.Pairwise fun x y => lt x.1 key = false → lt y.1 key = false := by
    refine h.imp fun {x y} hxy hx => Bool.eq_false_iff.mpr fun hy => ?_
    rw [htrans _ _ _ hxy hy] at hx
    cases hx
  refine (filter_split _ (fun x => lt x.1 key) hcut).trans (congrArg₂ _ ?_ ?_)
  · refine List.filter_congr ?_
    intro x _
    cases hx : lt x.1 key with
    | false => simp [hx]
    | true =>
      have hall : maximum.all (fun k => lt x.1 k) = true := by
        refine (Option.all_eq_true ..).mpr ?_
        intro k hk
        rcases hmax k hk with rfl | hlt
        · exact hx
        · exact htrans _ _ _ hx hlt
      simp [hall, hx]
  · refine List.filter_congr ?_
    intro x _
    cases hx : lt x.1 key with
    | true => simp [hx]
    | false =>
      have hall : minimum.all (fun k => !lt x.1 k) = true := by
        refine (Option.all_eq_true ..).mpr ?_
        intro k hk
        rw [Bool.not_eq_true']
        rcases hmin k hk with rfl | hlt
        · exact hx
        · refine Bool.eq_false_iff.mpr ?_
          intro hxk
          rw [htrans _ _ _ hxk hlt] at hx
          cases hx
      simp [hall, hx]

end

variable [DecidableEq K]

instance decidableMemKeys (key : K) (d : List (K × V)) : Decidable (key ∈ d.map Prod.fst) :=
  inferInstance

def set (key : K) (value : V) (d : List (K × V)) : List (K × V) :=
  if key ∈ d.map Prod.fst then d.map fun x => if x.1 = key then (key, value) else x
  else setNew lt key value d

def del (key : K) (d : List (K × V)) : List (K × V) := d.filter fun x => x.1 ≠ key

section

variable {lt}

theorem mem_set : (k, v) ∈ set lt key value d ↔ (k = key ∧ v = value) ∨ (k ≠ key ∧ (k, v) ∈ d) := by
  unfold set
  split
  next hkey =>
    rw [List.mem_map]
    constructor
    · rintro ⟨x, hx, heq⟩
      split at heq
      · cases heq; exact .inl ⟨rfl, rfl⟩
      next hne => subst heq; exact .inr ⟨hne, hx⟩
    · rintro (⟨rfl, rfl⟩ | ⟨hne, hmem⟩)
      · obtain ⟨x, hx, rfl⟩ := List.mem_map.mp hkey
        exact ⟨x, hx, if_pos rfl⟩
      · exact ⟨_, hmem, if_neg hne⟩
  next hkey =>
    rw [setNew_perm.mem_iff, List.mem_cons, Prod.mk.injEq]
    refine or_congr_right (and_iff_right_of_imp fun hmem he => ?_).symm
    exact hkey (he ▸ List.mem_map_of_mem hmem)

theorem mem_del : (k, v) ∈ del key d ↔ k ≠ key ∧ (k, v) ∈ d := by
  rw [del, List.mem_filter, decide_eq_true_eq, and_comm]

theorem keys_set : ((set lt key value d).map Prod.fst).Perm
    (if key ∈ d.map Prod.fst then d.map Prod.fst else key :: d.map Prod.fst) := by
  unfold set
  split
  · rw [List.map_map]
    refine .of_eq (List.map_congr_left fun x _ => ?_)
    simp only [Function.comp_apply]
    split
    · next hx => exact hx.symm
    · rfl
  · exact setNew_perm.map _

theorem mem_keys_set : k ∈ (set lt key value d).map Prod.fst ↔ k = key ∨ k ∈ d.map Prod.fst := by
  rw [keys_set.mem_iff]
  split
  next hkey =>
    refine (or_iff_right_of_imp ?_).symm
    rintro rfl
    exact hkey
  next => exact List.mem_cons

theorem nodup_set (h : (d.map Prod.fst).Nodup) : ((set lt key value d).map Prod.fst).Nodup := by
  rw [keys_set.nodup_iff]
  split
  · exact h
  next hkey => exact List.nodup_cons.mpr ⟨hkey, h⟩

theorem mem_keys_del : k ∈ (del key d).map Prod.fst ↔ k ≠ key ∧ k ∈ d.map Prod.fst := by
  simp only [List.mem_map, Prod.exists, mem_del, exists_and_right, exists_eq_right,
    exists_and_left]

theorem Sorted.del (h : Sorted lt d) : Sorted lt (del key d) := List.Pairwise.filter _ h

/-- Assignment keeps a relation of the keys that the new key is put in its place with. -/
theorem pairwise_set {R : K → K → Prop} (hbefore : ∀ x ∈ d, lt key x.1 = true → R key x.1)
    (hafter : ∀ x ∈ d, key ≠ x.1 → lt key x.1 = false → R x.1 key)
    (htrans : ∀ x ∈ d, ∀ y ∈ d, R key x.1 → R x.1 y.1 → R key y.1)
    (h : d.Pairwise fun x y => R x.1 y.1) :
    (set lt key value d).Pairwise fun x y => R x.1 y.1 := by
  unfold set
  split
  · refine List.pairwise_map.mpr (h.imp fun {x y} hxy => ?_)
    have hfst (z : K × V) : (if z.1 = key then (key, value) else z).1 = z.1 := by
      split
      next hz => exact hz.symm
      · rfl
    rw [hfst, hfst]
    exact hxy
  next hkey =>
    induction d with
    | nil => exact List.pairwise_singleton ..
    | cons x d ih =>
      obtain ⟨hx, hd⟩ := List.pairwise_cons.mp h
      have hself : x ∈ x :: d := List.mem_cons_self
      have htail {y : K × V} (hy : y ∈ d) : y ∈ x :: d := List.mem_cons_of_mem _ hy
      unfold setNew
      split
      next hlt =>
        refine List.pairwise_cons.mpr ⟨fun y hy => ?_, h⟩
        rcases List.mem_cons.mp hy with rfl | hy
        · exact hbefore _ hself hlt
        · exact htrans _ hself _ (htail hy) (hbefore _ hself hlt) (hx y hy)
      next hlt =>
        have hne : key ≠ x.1 := fun he => hkey (he ▸ List.mem_cons_self ..)
        refine List.pairwise_cons.mpr ⟨fun y hy => ?_, ih (fun y hy => hbefore y (htail hy))
          (fun y hy => hafter y (htail hy))
          (fun y hy z hz => htrans y (htail hy) z (htail hz)) hd fun hmem => hkey (.tail _ hmem)⟩
        rcases List.mem_cons.mp (setNew_perm.mem_iff.mp hy) with rfl | hy
        · exact hafter x hself hne (Bool.eq_false_iff.mpr hlt)
        · exact hx y hy

/-- Assignment keeps the order, for a strict order of the keys. -/
theorem Sorted.set (htrans : ∀ a b c, lt a b = true → lt b c = true → lt a c = true)
    (htotal : ∀ a b, lt a b = true ∨ a = b ∨ lt b a = true) (h : Sorted lt d) :
    Sorted lt (set lt key value d) := by
  refine pairwise_set (R := fun k l => lt k l = true) (fun _ _ => id) ?_
    (fun _ _ _ _ => htrans _ _ _) h
  intro x _ hne hlt
  exact ((htotal key x.1).resolve_left (Bool.eq_false_iff.mp hlt)).resolve_left hne

end

/-! ## Loops -/

section

variable {α : Type*} (hit stop : α → Bool)

def scan : List α → List α
  | [] => []
  | x :: l => (if hit x then [x] else []) ++ if stop x then [] else scan l

theorem scan_sublist (l : List α) : (scan hit stop l).Sublist (l.filter hit) := by
  induction l with
  | nil => exact .slnil
  | cons x l ih =>
    have htail : (if stop x then [] else scan hit stop l).Sublist (l.filter hit) := by
      split
      · exact List.nil_sublist _
      · exact ih
    rw [scan, List.filter_cons]
    split
    · exact htail.cons_cons x
    · exact htail

theorem scan_eq_filter {l : List α} (h : l.Pairwise fun x y => stop x = true → hit y = false) :
    scan hit stop l = l.filter hit := by
  induction l with
  | nil => rfl
  | cons x l ih =>
    obtain ⟨hx, hl⟩ := List.pairwise_cons.mp h
    have htail : (if stop x then [] else scan hit stop l) = l.filter hit := by
      split
      next hstop =>
        exact (List.filter_eq_nil_iff.mpr fun y hy => by simp [hx y hy hstop]).symm
      next => exact ih hl
    rw [scan, htail, List.filter_cons]
    split <;> rfl

end

end SortedDict
