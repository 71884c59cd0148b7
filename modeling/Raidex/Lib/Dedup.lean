import Mathlib.Data.List.Chain
import Mathlib.Data.List.Nodup

/-!
# Raidex.Lib.Dedup

Items that are handed on when their key is new, from a history that is read again and again.

* `firsts key seen xs`: the items of `xs` with a key that is neither in `seen` nor that of an
  earlier item.
* `deliver key out xs`: what has been handed on after `xs` is read, if `out` was before.
* `foldl_deliver`: reading longer and longer parts of a history hands on the `firsts` of it.
* `Scans`: a machine that remembers keys and hands on items; `Scans.foldl_eq`: reading parts of a
  history, it delivers.
* `firsts_eq_self_iff`: these are all items exactly when the keys are distinct.
-/

namespace Dedup

variable {α K : Type*} [DecidableEq K] (key : α → K)

def firsts (key : α → K) : List K → List α → List α
  | _, [] => []
  | seen, x :: xs =>
    if key x ∈ seen then firsts key seen xs else x :: firsts key (seen ++ [key x]) xs

def deliver (out xs : List α) : List α := out ++ firsts key (out.map key) xs

variable {key}

theorem firsts_append (seen : List K) (xs ys : List α) : firsts key seen (xs ++ ys) =
    firsts key seen xs ++ firsts key (seen ++ (firsts key seen xs).map key) ys := by
  induction xs generalizing seen with
  | nil => simp [firsts]
  | cons x xs ih =>
    simp only [List.cons_append, firsts]
    split
    · exact ih seen
    · rw [ih]
      simp

/-- Every key is remembered. -/
theorem mem_keys (seen : List K) {xs : List α} {x : α} (h : x ∈ xs) :
    key x ∈ seen ++ (firsts key seen xs).map key := by
  induction xs generalizing seen with
  | nil => cases h
  | cons y ys ih =>
    simp only [firsts]
    split
    next hy =>
      rcases List.mem_cons.mp h with rfl | h
      · exact List.mem_append_left _ hy
      · exact ih seen h
    next =>
      rw [List.map_cons]
      rcases List.mem_cons.mp h with rfl | h
      · simp
      · have hmem := ih (seen ++ [key y]) h
        rwa [List.append_assoc] at hmem

theorem firsts_eq_nil {seen : List K} {xs : List α} (h : ∀ x ∈ xs, key x ∈ seen) :
    firsts key seen xs = [] := by
  induction xs with
  | nil => rfl
  | cons x xs ih =>
    rw [firsts, if_pos (h x (List.mem_cons_self ..))]
    exact ih fun y hy => h y (List.mem_cons_of_mem _ hy)

/-- A longer part of the history adds what is new in it. -/
theorem deliver_firsts {xs ys : List α} (h : xs <+: ys) :
    deliver key (firsts key [] xs) ys = firsts key [] ys := by
  obtain ⟨zs, rfl⟩ := h
  have hknown : ∀ x ∈ xs, key x ∈ (firsts key [] xs).map key := fun x hx => mem_keys [] hx
  have hnil : firsts key ((firsts key [] xs).map key) xs = [] := firsts_eq_nil hknown
  rw [deliver, firsts_append, firsts_append, hnil]
  simp

theorem foldl_deliver {yss : List (List α)} (h : yss.IsChain (· <+: ·)) :
    yss.foldl (deliver key) [] = firsts key [] (yss.getLast?.getD []) := by
  induction yss using List.reverseRecOn with
  | nil => rfl
  | append_singleton yss ys ih =>
    obtain ⟨hpre, -, hlast⟩ := List.isChain_append.mp h
    rw [List.foldl_append, ih hpre, List.getLast?_concat]
    refine deliver_firsts ?_
    cases hget : yss.getLast? with
    | none => exact List.nil_prefix
    | some xs => exact hlast xs hget ys rfl

theorem firsts_eq_self {seen : List K} {xs : List α} (hnodup : (xs.map key).Nodup)
    (h : ∀ x ∈ xs, key x ∉ seen) : firsts key seen xs = xs := by
  induction xs generalizing seen with
  | nil => rfl
  | cons x xs ih =>
    rw [List.map_cons, List.nodup_cons] at hnodup
    rw [firsts, if_neg (h x (List.mem_cons_self ..)), ih hnodup.2]
    intro y hy hmem
    rcases List.mem_append.mp hmem with hmem | hmem
    · exact h y (List.mem_cons_of_mem _ hy) hmem
    · exact hnodup.1 (List.mem_singleton.mp hmem ▸ List.mem_map_of_mem hy)

theorem firsts_nodup (seen : List K) (xs : List α) :
    ((firsts key seen xs).map key).Nodup ∧ ∀ x ∈ firsts key seen xs, key x ∉ seen := by
  induction xs generalizing seen with
  | nil => exact ⟨List.nodup_nil, by simp [firsts]⟩
  | cons x xs ih =>
    simp only [firsts]
    split
    · exact ih seen
    next hx =>
      obtain ⟨hnodup, hnew⟩ := ih (seen ++ [key x])
      rw [List.map_cons, List.nodup_cons]
      refine ⟨⟨fun hmem => ?_, hnodup⟩, fun y hy hmem => ?_⟩
      · obtain ⟨y, hy, heq⟩ := List.mem_map.mp hmem
        exact hnew y hy (List.mem_append_right _ (List.mem_singleton.mpr heq))
      · rcases List.mem_cons.mp hy with rfl | hy
        · exact hx hmem
        · exact hnew y hy (List.mem_append_left _ hmem)

theorem firsts_eq_self_iff {xs : List α} : firsts key [] xs = xs ↔ (xs.map key).Nodup :=
  ⟨fun h => h ▸ (firsts_nodup [] xs).1, fun h => firsts_eq_self h fun _ _ => List.not_mem_nil⟩

/-! ## Machines that scan -/

/-- A machine that remembers the keys of the items it has handed on, and takes no other item with
one of these keys. -/
structure Scans {σ : Type*} (key : α → K) (step : σ → α → σ) (seen : σ → List K)
    (out : σ → List α) : Prop where
  old : ∀ s x, key x ∈ seen s → step s x = s
  new : ∀ s x, key x ∉ seen s → seen (step s x) = seen s ++ [key x] ∧ out (step s x) = out s ++ [x]

namespace Scans

variable {σ ρ : Type*} {step : σ → α → σ} {seen : σ → List K} {out : σ → List α} {s : σ}

theorem foldl_step (h : Scans key step seen out) (hs : seen s = (out s).map key) (xs : List α) :
    seen (xs.foldl step s) = (out (xs.foldl step s)).map key ∧
      out (xs.foldl step s) = deliver key (out s) xs := by
  induction xs generalizing s with
  | nil => exact ⟨hs, (List.append_nil _).symm⟩
  | cons x xs ih =>
    rw [List.foldl_cons]
    by_cases hx : key x ∈ seen s
    · rw [h.old s x hx]
      obtain ⟨h₁, h₂⟩ := ih hs
      refine ⟨h₁, h₂.trans ?_⟩
      rw [hs] at hx
      rw [deliver, deliver, firsts, if_pos hx]
    · obtain ⟨hseen, hout⟩ := h.new s x hx
      obtain ⟨h₁, h₂⟩ := ih (s := step s x) (by rw [hseen, hout, hs, List.map_append]; rfl)
      refine ⟨h₁, h₂.trans ?_⟩
      rw [hs] at hx
      rw [deliver, deliver, firsts, if_neg hx, hout, List.map_append, List.append_assoc]
      rfl

/-- The parts of the history are parsed and scanned one after the other. -/
theorem foldl_eq (h : Scans key step seen out) (hseen : seen s = []) (hout : out s = [])
    (parse : ρ → List α) (parts : List ρ) :
    out (parts.foldl (fun s part => (parse part).foldl step s) s) =
      (parts.map parse).foldl (deliver key) [] := by
  suffices hboth : seen (parts.foldl (fun s part => (parse part).foldl step s) s) =
      (out (parts.foldl (fun s part => (parse part).foldl step s) s)).map key ∧
    out (parts.foldl (fun s part => (parse part).foldl step s) s) =
      (parts.map parse).foldl (deliver key) [] from hboth.2
  induction parts using List.reverseRecOn with
  | nil => exact ⟨by rw [List.foldl_nil, hseen, hout]; rfl, hout⟩
  | append_singleton parts part ih =>
    rw [List.foldl_append, List.map_append, List.foldl_append]
    obtain ⟨h₁, h₂⟩ := h.foldl_step ih.1 (parse part)
    exact ⟨h₁, h₂.trans (by rw [ih.2]; rfl)⟩

end Scans

end Dedup
