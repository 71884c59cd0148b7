import Mathlib.Algebra.GroupWithZero.Nat
import Mathlib.Data.List.TakeWhile
import Raidex.Lib.Dedup

/-!
# Raidex.Lib.Grouping

Grouping items by a key into a dictionary that iterates in the order of insertion, as the list of
its entries.

* `upsert`: the entry of a key, updated or else created.
* `group`: all items, one after the other. `group_eq`: there is an entry for each key, in the order
  of the first items with them, folded over all items with the key. `sum_group`: sums are kept.
* `chunked`: a loop that stops at the item which opens one entry too many, and deletes this entry.
  `chunked_eq`: it groups the items before the first whose key is not among the first `n`.
* `Apart`: a coarser key tells the first keys from all others; the loop groups the same items then.
-/

namespace Grouping

open Dedup

variable {A K V : Type*} [DecidableEq K]

def upsert (k : K) (new : V) (add : V → V) : List (K × V) → List (K × V)
  | [] => [(k, add new)]
  | x :: d => if x.1 = k then (x.1, add x.2) :: d else x :: upsert k new add d

theorem upsert_of_not_mem {k : K} {new : V} {add : V → V} {d : List (K × V)}
    (h : k ∉ d.map Prod.fst) : upsert k new add d = d ++ [(k, add new)] := by
  induction d with
  | nil => rfl
  | cons x d ih =>
    rw [List.map_cons, List.mem_cons, not_or] at h
    rw [upsert, if_neg (Ne.symm h.1), ih h.2]
    rfl

variable {key : A → K}

/-- The entry of a key that the dictionary has is updated in its place. -/
theorem upsert_of_mem {k : K} {new : V} {add : V → V} {f : A → V} {xs : List A}
    (hnodup : (xs.map key).Nodup) (h : k ∈ xs.map key) :
    upsert k new add (xs.map fun x => (key x, f x)) =
      xs.map fun x => (key x, if key x = k then add (f x) else f x) := by
  induction xs with
  | nil => cases h
  | cons x xs ih =>
    rw [List.map_cons, List.nodup_cons] at hnodup
    rw [List.map_cons, List.map_cons, upsert]
    by_cases hx : key x = k
    · rw [if_pos hx, if_pos hx]
      refine congrArg _ (List.map_congr_left fun y hy => ?_)
      have hne : key y ≠ k := fun hy' => hnodup.1 (hx.trans hy'.symm ▸ List.mem_map_of_mem hy)
      rw [if_neg hne]
    · rw [if_neg hx, if_neg hx, ih hnodup.2 ((List.mem_cons.mp h).resolve_left (Ne.symm hx))]

variable (key) (new : A → V) (add : A → V → V)

def insertItem (d : List (K × V)) (x : A) : List (K × V) := upsert (key x) (new x) (add x) d

def group (xs : List A) : List (K × V) := xs.foldl (insertItem key new add) []

/-- The value of a key: all its items added to what the first one opens. -/
def total (xs : List A) (x : A) : V :=
  (xs.filter fun y => key y = key x).foldl (fun v y => add y v) (new x)

variable {key new add}

theorem total_concat (xs : List A) (x y : A) : total key new add (xs ++ [y]) x =
    if key x = key y then add y (total key new add xs x) else total key new add xs x := by
  unfold total
  rw [List.filter_append, List.foldl_append]
  by_cases h : key x = key y
  · rw [if_pos h, List.filter_cons_of_pos (by simpa using h.symm)]
    rfl
  · rw [if_neg h, List.filter_cons_of_neg (by simpa using Ne.symm h)]
    rfl

theorem firsts_subset {seen : List K} {xs : List A} {x : A} (h : x ∈ firsts key seen xs) :
    x ∈ xs := by
  induction xs generalizing seen with
  | nil => cases h
  | cons y xs ih =>
    unfold firsts at h
    split at h
    · exact List.mem_cons_of_mem _ (ih h)
    · rcases List.mem_cons.mp h with rfl | h
      · exact List.mem_cons_self
      · exact List.mem_cons_of_mem _ (ih h)

/-- The keys of the items are those of the first ones. -/
theorem mem_keys_iff {xs : List A} {k : K} :
    k ∈ (firsts key [] xs).map key ↔ k ∈ xs.map key := by
  refine ⟨fun h => List.map_subset _ (fun _ => firsts_subset) h, fun h => ?_⟩
  obtain ⟨x, hx, rfl⟩ := List.mem_map.mp h
  exact mem_keys [] hx

theorem firsts_concat (xs : List A) (x : A) : firsts key [] (xs ++ [x]) =
    if key x ∈ xs.map key then firsts key [] xs else firsts key [] xs ++ [x] := by
  rw [firsts_append, List.nil_append, firsts]
  simp only [mem_keys_iff, firsts]
  split
  · exact List.append_nil _
  · rfl

/-- Every key has one entry, folded over all items with it. -/
theorem group_eq (xs : List A) : group key new add xs =
    (firsts key [] xs).map fun x => (key x, total key new add xs x) := by
  induction xs using List.reverseRecOn with
  | nil => rfl
  | append_singleton xs x ih =>
    have hkeys : ((firsts key [] xs).map fun y => (key y, total key new add xs y)).map Prod.fst =
        (firsts key [] xs).map key := by rw [List.map_map]; rfl
    rw [group, List.foldl_append, ← group, ih, firsts_concat]
    simp only [List.foldl_cons, List.foldl_nil, insertItem, total_concat]
    split
    next h =>
      rw [upsert_of_mem (firsts_nodup [] xs).1 (mem_keys_iff.mpr h)]
    next h =>
      have hnot := mem_keys_iff.not.mpr h
      rw [upsert_of_not_mem (by rwa [hkeys]), List.map_append]
      refine congrArg₂ _ (List.map_congr_left fun y hy => ?_) ?_
      · have hne : key y ≠ key x := fun heq => hnot (heq ▸ List.mem_map_of_mem hy)
        rw [if_neg hne]
      · have hnone : xs.filter (fun y => key y = key x) = [] := by
          refine List.filter_eq_nil_iff.mpr ?_
          intro y hy
          rw [decide_eq_true_eq]
          exact fun heq => h (heq ▸ List.mem_map_of_mem hy)
        rw [List.map_cons, List.map_nil, if_pos rfl, total, hnone]
        rfl

/-- Keys that are wrapped up give the same first items. -/
theorem firsts_some {key' : A → Option K} {seen : List K} {xs : List A}
    (h : ∀ x ∈ xs, key' x = some (key x)) :
    firsts key' (seen.map some) xs = firsts key seen xs := by
  induction xs generalizing seen with
  | nil => rfl
  | cons x xs ih =>
    have htail (seen : List K) : firsts key' (seen.map some) xs = firsts key seen xs :=
      ih fun y hy => h y (List.mem_cons_of_mem _ hy)
    have hseen : seen.map some ++ [some (key x)] = (seen ++ [key x]).map some := by
      rw [List.map_append]; rfl
    rw [firsts, firsts, h x List.mem_cons_self, hseen, htail, htail]
    have hinj : Function.Injective (some : K → Option K) := fun _ _ => Option.some.inj
    simp only [List.mem_map_of_injective hinj]

/-- Grouping keeps a sum to which each item adds what it weighs. -/
theorem sum_group {f : A → ℕ} {w : V → ℕ} (hnew : ∀ x, w (new x) = 0)
    (hadd : ∀ x v, w (add x v) = w v + f x) (xs : List A) :
    ((group key new add xs).map fun e => w e.2).sum = (xs.map f).sum := by
  have hinsert (d : List (K × V)) (x : A) :
      ((insertItem key new add d x).map fun e => w e.2).sum =
        (d.map fun e => w e.2).sum + f x := by
    unfold insertItem
    induction d with
    | nil =>
      simp only [upsert, List.map_cons, List.map_nil, List.sum_cons, List.sum_nil, hadd, hnew]
      omega
    | cons e d ih =>
      rw [upsert]
      split
      · simp only [List.map_cons, List.sum_cons, hadd]
        omega
      · rw [List.map_cons, List.sum_cons, ih, List.map_cons, List.sum_cons, Nat.add_assoc]
  induction xs using List.reverseRecOn with
  | nil => rfl
  | append_singleton xs x ih =>
    rw [group, List.foldl_append, ← group, List.foldl_cons, List.foldl_nil, hinsert, ih,
      List.map_append, List.sum_append]
    rfl

/-! ## A limited number of groups -/

variable (key new add)

def chunked (n : ℕ) : List A → List (K × V) → List (K × V)
  | [], d => d
  | x :: xs, d =>
    let d := insertItem key new add d x
    if d.length = n + 1 then d.filter fun e => e.1 ≠ key x else chunked n xs d

/-- The keys met first, at most `n`. -/
def firstKeys (n : ℕ) (xs : List A) : List K := ((firsts key [] xs).take n).map key

variable {key new add}

theorem length_group (xs : List A) :
    (group key new add xs).length = (firsts key [] xs).length := by
  rw [group_eq, List.length_map]

theorem group_concat (xs : List A) (x : A) : group key new add (xs ++ [x]) =
    insertItem key new add (group key new add xs) x := by
  rw [group, List.foldl_append]
  rfl

/-- The keys of a part of the items that has at most `n` are among the first. -/
theorem mem_firstKeys {n : ℕ} {xs ys : List A} {k : K} (h : (firsts key [] xs).length ≤ n)
    (hk : k ∈ xs.map key) : k ∈ firstKeys key n (xs ++ ys) := by
  rw [firstKeys, firsts_append, List.take_append, List.take_of_length_le h, List.map_append]
  exact List.mem_append_left _ (mem_keys_iff.mpr hk)

theorem chunked_append (n : ℕ) (xs ys : List A) (h : (firsts key [] ys).length ≤ n) :
    chunked key new add n xs (group key new add ys) =
      group key new add (ys ++ xs.takeWhile fun x => key x ∈ firstKeys key n (ys ++ xs)) := by
  induction xs generalizing ys with
  | nil => rw [List.takeWhile_nil, List.append_nil]; rfl
  | cons x xs ih =>
    have hassoc : ys ++ x :: xs = ys ++ [x] ++ xs := by rw [List.append_assoc]; rfl
    rw [chunked, ← group_concat, length_group, firsts_concat]
    by_cases hx : key x ∈ ys.map key
    · have hlen : (firsts key [] (ys ++ [x])).length ≤ n := by rwa [firsts_concat, if_pos hx]
      have hmem : key x ∈ firstKeys key n (ys ++ x :: xs) := mem_firstKeys h hx
      rw [if_pos hx, if_neg (by omega), ih _ hlen, List.takeWhile_cons_of_pos (by simpa using hmem),
        hassoc, List.append_assoc ys [x]]
      rfl
    · rw [if_neg hx, List.length_append, List.length_singleton]
      by_cases hn : (firsts key [] ys).length = n
      · -- One key too many: its entry is the last one, and is deleted.
        have hnot : key x ∉ firstKeys key n (ys ++ x :: xs) := by
          rw [firstKeys, firsts_append, List.take_append_of_le_length hn.ge,
            List.take_of_length_le hn.le, mem_keys_iff]
          exact hx
        rw [if_pos (by rw [hn]), List.takeWhile_cons_of_neg (by simpa using hnot), List.append_nil,
          group_concat, insertItem, upsert_of_not_mem, List.filter_append]
        · have hall : (group key new add ys).filter (fun e => e.1 ≠ key x) =
              group key new add ys := by
            refine List.filter_eq_self.mpr ?_
            intro e he
            rw [decide_eq_true_eq]
            intro heq
            rw [group_eq] at he
            obtain ⟨y, hy, rfl⟩ := List.mem_map.mp he
            exact hx (mem_keys_iff.mp (heq ▸ List.mem_map_of_mem hy))
          rw [hall, List.filter_cons_of_neg (by simp), List.filter_nil, List.append_nil]
        · rw [group_eq, List.map_map]
          exact mem_keys_iff.not.mpr hx
      · have hlen : (firsts key [] (ys ++ [x])).length ≤ n := by
          rw [firsts_concat, if_neg hx, List.length_append, List.length_singleton]
          omega
        have hmem : key x ∈ firstKeys key n (ys ++ x :: xs) := by
          rw [hassoc]
          exact mem_firstKeys hlen (by simp)
        rw [if_neg (by omega), ih _ hlen, List.takeWhile_cons_of_pos (by simpa using hmem),
          hassoc, List.append_assoc ys [x]]
        rfl

theorem firstKeys_some {key' : A → Option K} {n : ℕ} {xs : List A}
    (h : ∀ x ∈ xs, key' x = some (key x)) :
    firstKeys key' n xs = (firstKeys key n xs).map some := by
  have hfirsts : firsts key' (([] : List K).map some) xs = firsts key [] xs := firsts_some h
  rw [List.map_nil] at hfirsts
  rw [firstKeys, firstKeys, hfirsts, List.map_map]
  refine List.map_congr_left fun x hx => h x ?_
  exact firsts_subset (List.mem_of_mem_take hx)

/-- What the loop groups: the items before the first with another key. -/
def taken (key : A → K) (n : ℕ) (xs : List A) : List A :=
  xs.takeWhile fun x => key x ∈ firstKeys key n xs

/-- What it never looks at, and the item at which it stops. -/
def leftOut (key : A → K) (n : ℕ) (xs : List A) : List A :=
  xs.dropWhile fun x => key x ∈ firstKeys key n xs

theorem taken_append_leftOut (key : A → K) (n : ℕ) (xs : List A) :
    taken key n xs ++ leftOut key n xs = xs :=
  List.takeWhile_append_dropWhile

theorem mem_firstKeys_of_taken {n : ℕ} {xs : List A} {x : A} (h : x ∈ taken key n xs) :
    key x ∈ firstKeys key n xs := by
  have htaken : x ∈ xs.takeWhile fun x => key x ∈ firstKeys key n xs := h
  simpa using List.mem_takeWhile_imp htaken

theorem dropWhile_congr {p q : A → Bool} {xs : List A} (h : ∀ x ∈ xs, p x = q x) :
    xs.dropWhile p = xs.dropWhile q := by
  induction xs with
  | nil => rfl
  | cons x xs ih =>
    rw [List.dropWhile_cons, List.dropWhile_cons, h x List.mem_cons_self,
      ih fun y hy => h y (List.mem_cons_of_mem _ hy)]

theorem leftOut_some {key' : A → Option K} {n : ℕ} {xs : List A}
    (h : ∀ x ∈ xs, key' x = some (key x)) : leftOut key' n xs = leftOut key n xs := by
  refine dropWhile_congr ?_
  intro x hx
  rw [h x hx, firstKeys_some h]
  exact decide_eq_decide.mpr (List.mem_map_of_injective fun _ _ => Option.some.inj)

theorem firstKeys_nodup (n : ℕ) (xs : List A) : (firstKeys key n xs).Nodup :=
  (firsts_nodup [] xs).1.sublist ((List.take_sublist n _).map key)

/-! ## A coarser key -/

section

variable {L : Type*} {c : K → L} {n : ℕ} {xs : List A}

/-- No other key becomes the same as one of the first `n`. -/
def Apart (c : K → L) (key : A → K) (n : ℕ) (xs : List A) : Prop :=
  ∀ x ∈ xs, ∀ y ∈ xs, key x ∈ firstKeys key n xs → c (key y) = c (key x) → key y = key x

instance [DecidableEq L] (c : K → L) (key : A → K) (n : ℕ) (xs : List A) :
    Decidable (Apart c key n xs) :=
  inferInstanceAs (Decidable (∀ _ ∈ _, ∀ _ ∈ _, _ → _ → _))

theorem apart_some {key' : A → Option K} (h : ∀ x ∈ xs, key' x = some (key x)) :
    Apart (Option.map c) key' n xs ↔ Apart c key n xs := by
  refine forall₂_congr fun x hx => forall₂_congr fun y hy => ?_
  rw [h x hx, h y hy, firstKeys_some h, Option.map_some, Option.map_some, Option.some_inj,
    Option.some_inj, List.mem_map_of_injective fun _ _ => Option.some.inj]

variable [DecidableEq L]

theorem take_firsts_map {seen : List K}
    (hseen : ∀ k ∈ seen, ∀ y ∈ xs, c (key y) = c k → key y = k)
    (hfirst : ∀ x ∈ (firsts key seen xs).take n, ∀ y ∈ xs, c (key y) = c (key x) → key y = key x) :
    (firsts (fun x => c (key x)) (seen.map c) xs).take n = (firsts key seen xs).take n := by
  induction xs generalizing seen n with
  | nil => rfl
  | cons x xs ih =>
    have htail (k : K) (h : ∀ y ∈ x :: xs, c (key y) = c k → key y = k) :
        ∀ y ∈ xs, c (key y) = c k → key y = k := fun y hy => h y (List.mem_cons_of_mem x hy)
    by_cases hx : key x ∈ seen
    · have hmem : c (key x) ∈ seen.map c := List.mem_map_of_mem hx
      have hfirsts : firsts key seen (x :: xs) = firsts key seen xs := if_pos hx
      have hcoarse : firsts (fun x => c (key x)) (seen.map c) (x :: xs) =
          firsts (fun x => c (key x)) (seen.map c) xs := if_pos hmem
      rw [hfirsts] at hfirst ⊢
      rw [hcoarse]
      exact ih (fun k hk => htail k (hseen k hk)) fun y hy => htail (key y) (hfirst y hy)
    · have hmem : c (key x) ∉ seen.map c := by
        intro hmem
        obtain ⟨k, hk, heq⟩ := List.mem_map.mp hmem
        exact hx (hseen k hk x List.mem_cons_self heq.symm ▸ hk)
      have hfirsts : firsts key seen (x :: xs) = x :: firsts key (seen ++ [key x]) xs := if_neg hx
      have hcoarse : firsts (fun x => c (key x)) (seen.map c) (x :: xs) =
          x :: firsts (fun x => c (key x)) (seen.map c ++ [c (key x)]) xs := if_neg hmem
      rw [hfirsts] at hfirst ⊢
      rw [hcoarse]
      cases n with
      | zero => rfl
      | succ n =>
        rw [List.take_succ_cons] at hfirst ⊢
        rw [List.take_succ_cons]
        have hseen' : ∀ k ∈ seen ++ [key x], ∀ y ∈ xs, c (key y) = c k → key y = k := by
          intro k hk
          rcases List.mem_append.mp hk with hk | hk
          · exact htail k (hseen k hk)
          · obtain rfl := List.mem_singleton.mp hk
            exact htail (key x) (hfirst x List.mem_cons_self)
        have hrest := ih hseen' fun y hy =>
          htail (key y) (hfirst y (List.mem_cons_of_mem x hy))
        rw [List.map_append, List.map_singleton] at hrest
        rw [hrest]

theorem Apart.firstKeys_eq (h : Apart c key n xs) :
    firstKeys (fun x => c (key x)) n xs = (firstKeys key n xs).map c := by
  have htake : (firsts (fun x => c (key x)) (([] : List K).map c) xs).take n =
      (firsts key [] xs).take n := by
    refine take_firsts_map (fun k hk => absurd hk List.not_mem_nil) ?_
    intro x hx y hy
    exact h x (firsts_subset (List.mem_of_mem_take hx)) y hy (List.mem_map_of_mem hx)
  rw [List.map_nil] at htake
  rw [firstKeys, firstKeys, htake, List.map_map]
  rfl

/-- The first keys are still those of the same items. -/
theorem Apart.mem_firstKeys_iff (h : Apart c key n xs) {x : A} (hx : x ∈ xs) :
    c (key x) ∈ firstKeys (fun x => c (key x)) n xs ↔ key x ∈ firstKeys key n xs := by
  rw [h.firstKeys_eq]
  constructor
  · intro hmem
    obtain ⟨k, hk, heq⟩ := List.mem_map.mp hmem
    obtain ⟨y, hy, rfl⟩ := List.mem_map.mp hk
    have hkey : key x = key y :=
      h y (firsts_subset (List.mem_of_mem_take hy)) x hx hk heq.symm
    rwa [hkey]
  · exact List.mem_map_of_mem

theorem Apart.leftOut_eq (h : Apart c key n xs) :
    leftOut (fun x => c (key x)) n xs = leftOut key n xs :=
  dropWhile_congr fun _ hx => decide_eq_decide.mpr (h.mem_firstKeys_iff hx)

theorem Apart.taken_eq (h : Apart c key n xs) :
    taken (fun x => c (key x)) n xs = taken key n xs := by
  have hsplit : taken (fun x => c (key x)) n xs ++ leftOut (fun x => c (key x)) n xs =
      taken key n xs ++ leftOut key n xs := by
    rw [taken_append_leftOut, taken_append_leftOut]
  rw [h.leftOut_eq] at hsplit
  exact List.append_cancel_right hsplit

end

theorem length_firstKeys_le (key : A → K) (n : ℕ) (xs : List A) :
    (firstKeys key n xs).length ≤ n := by
  rw [firstKeys, List.length_map]
  exact List.length_take_le n _

/-- The loop makes at most `n` groups. -/
theorem length_taken_le (n : ℕ) (xs : List A) :
    (firsts key [] (taken key n xs)).length ≤ n := by
  rw [← List.length_map key]
  refine le_trans ?_ (length_firstKeys_le key n xs)
  refine List.Nodup.length_le_of_subset (firsts_nodup [] _).1 ?_
  intro k hk
  obtain ⟨x, hx, rfl⟩ := List.mem_map.mp (mem_keys_iff.mp hk)
  exact mem_firstKeys_of_taken hx

/-- The loop groups the items before the first whose key is not among the first `n`. -/
theorem chunked_eq (n : ℕ) (xs : List A) : chunked key new add n xs [] =
    group key new add (taken key n xs) :=
  chunked_append n xs [] (Nat.zero_le n)

end Grouping
