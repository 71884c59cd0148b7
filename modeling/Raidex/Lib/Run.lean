import Mathlib.Data.List.Basic
import Mathlib.Data.List.Induction

/-!
# Raidex.Lib.Run

Runs of a deterministic labelled transition system `step : σ → ι → σ`. Everything the
environment decides (which input comes next, clock readings, random draws) is part of the input.

* `run step s is`: the state after the inputs `is`, taken in order from `s`.
* `trace step s is`: its steps, each with the state before it; `AllSteps step G s is`: all of
  them meet `G`.
* `run_invariant`: a predicate on the history and the state that every step keeps holds at the
  end of every run; `run_invariant_of_guard` asks for it only on steps that meet the guard.
* `allSteps_congr`: guards that agree in every reachable state.
* `run_of_fixed`: a state that no step leaves.
* `run_mono`: a preorder along which every step moves up.
* `run_ensures`: what an input of some kind completes for good, in whatever run it occurs.
* `prefixes_iff_allSteps`: a property that a guarded step keeps and an unguarded step breaks
  holds after every prefix of a run exactly when all steps of the run meet the guard.
-/

namespace LTS

variable {σ ι : Type*} {step : σ → ι → σ}

def run (step : σ → ι → σ) (s : σ) (is : List ι) : σ := is.foldl step s

@[simp] theorem run_nil (s : σ) : run step s [] = s := rfl

@[simp] theorem run_cons (s : σ) (i : ι) (is : List ι) :
    run step s (i :: is) = run step (step s i) is := rfl

theorem run_append (s : σ) (is js : List ι) :
    run step s (is ++ js) = run step (run step s is) js := by
  simp [run, List.foldl_append]

theorem run_concat (s : σ) (is : List ι) (i : ι) :
    run step s (is ++ [i]) = step (run step s is) i := by
  rw [run_append]; rfl

/-- A run stays in a state that no step leaves. -/
theorem run_of_fixed {s : σ} (h : ∀ i, step s i = s) (is : List ι) : run step s is = s := by
  induction is with
  | nil => rfl
  | cons i is ih => rw [run_cons, h i, ih]

/-- The steps of a run: each input with the state it was taken in. -/
def trace (step : σ → ι → σ) : σ → List ι → List (σ × ι)
  | _, [] => []
  | s, i :: is => (s, i) :: trace step (step s i) is

theorem trace_append (s : σ) (is js : List ι) :
    trace step s (is ++ js) = trace step s is ++ trace step (run step s is) js := by
  induction is generalizing s with
  | nil => rfl
  | cons i is ih => simp only [List.cons_append, trace, ih, run_cons]

theorem trace_concat (s : σ) (is : List ι) (i : ι) :
    trace step s (is ++ [i]) = trace step s is ++ [(run step s is, i)] := trace_append s is [i]

/-- Every step of the run from `s` meets `G` in the state before it. -/
def AllSteps (step : σ → ι → σ) (G : σ → ι → Prop) (s : σ) (is : List ι) : Prop :=
  ∀ x ∈ trace step s is, G x.1 x.2

instance (G : σ → ι → Prop) [∀ s i, Decidable (G s i)] (s : σ) (is : List ι) :
    Decidable (AllSteps step G s is) :=
  inferInstanceAs (Decidable (∀ x ∈ trace step s is, G x.1 x.2))

@[simp] theorem allSteps_nil {G : σ → ι → Prop} {s : σ} : AllSteps step G s [] := by
  simp [AllSteps, trace]

theorem allSteps_concat {G : σ → ι → Prop} {s : σ} {is : List ι} {i : ι} :
    AllSteps step G s (is ++ [i]) ↔ AllSteps step G s is ∧ G (run step s is) i := by
  simp only [AllSteps, trace_concat, List.forall_mem_append, List.forall_mem_singleton]

theorem allSteps_append {G : σ → ι → Prop} {s : σ} {is js : List ι} :
    AllSteps step G s (is ++ js) ↔ AllSteps step G s is ∧ AllSteps step G (run step s is) js := by
  simp only [AllSteps, trace_append, List.forall_mem_append]

/-- The induction on a run whose steps meet a guard. `P h s` may speak of the inputs `h` so
far. -/
theorem run_invariant_of_guard (step : σ → ι → σ) (G : σ → ι → Prop) (P : List ι → σ → Prop)
    {s : σ} (h0 : P [] s) (hstep : ∀ h x i, P h x → G x i → P (h ++ [i]) (step x i)) :
    ∀ is, AllSteps step G s is → P is (run step s is) := by
  intro is
  induction is using List.reverseRecOn with
  | nil => intro _; exact h0
  | append_singleton is i ih =>
    intro hall
    obtain ⟨hpre, hi⟩ := allSteps_concat.mp hall
    rw [run_concat]
    exact hstep is _ i (ih hpre) hi

theorem run_invariant (step : σ → ι → σ) (P : List ι → σ → Prop) {s : σ} (h0 : P [] s)
    (hstep : ∀ h x i, P h x → P (h ++ [i]) (step x i)) (is : List ι) : P is (run step s is) :=
  run_invariant_of_guard step (fun _ _ => True) P h0 (fun h x i hx _ => hstep h x i hx) is
    fun _ _ => trivial

/-- Two guards that mean the same in every reachable state. `I` is what is known of these. -/
theorem allSteps_congr {G H : σ → ι → Prop} {I : σ → Prop} {s : σ} (hinv0 : I s)
    (hinv : ∀ x i, I x → I (step x i)) (h : ∀ x i, I x → (G x i ↔ H x i)) (is : List ι) :
    AllSteps step G s is ↔ AllSteps step H s is := by
  induction is using List.reverseRecOn with
  | nil => exact iff_of_true allSteps_nil allSteps_nil
  | append_singleton is i ih =>
    have hreach : I (run step s is) :=
      run_invariant step (fun _ x => I x) hinv0 (fun _ x i hx => hinv x i hx) is
    rw [allSteps_concat, allSteps_concat, ih, h _ i hreach]

/-- A preorder that every step of a run moves up along relates each state of the run to all
later ones. -/
theorem run_mono {R : σ → σ → Prop} (hrefl : ∀ x, R x x) (htrans : ∀ x y z, R x y → R y z → R x z)
    {s : σ} (hstep : ∀ is i, R (run step s is) (step (run step s is) i)) {pre is : List ι}
    (h : pre <+: is) : R (run step s pre) (run step s is) := by
  obtain ⟨post, rfl⟩ := h
  induction post using List.reverseRecOn with
  | nil => rw [List.append_nil]; exact hrefl _
  | append_singleton post i ih =>
    rw [← List.append_assoc, run_concat]
    exact htrans _ _ _ ih (hstep _ i)

/-- What every step keeps up or completes, and an input of the kind `K` completes, is complete
after every run in which such an input occurs. -/
theorem run_ensures {K : ι → Prop} {P Q : σ → Prop}
    (hkeep : ∀ x i, P x → P (step x i) ∨ Q (step x i)) (hdone : ∀ x i, P x → K i → Q (step x i))
    (hstay : ∀ x i, Q x → Q (step x i)) {s : σ} (h : P s) {is : List ι} (hK : ∃ i ∈ is, K i) :
    Q (run step s is) := by
  have hforever : ∀ is x, Q x → Q (run step x is) := fun is x hx =>
    run_invariant step (fun _ y => Q y) hx (fun _ y i hy => hstay y i hy) is
  induction is generalizing s with
  | nil =>
    obtain ⟨i, hi, -⟩ := hK
    cases hi
  | cons i is ih =>
    rw [run_cons]
    obtain ⟨j, hj, hKj⟩ := hK
    rcases List.mem_cons.mp hj with rfl | hj
    · exact hforever is _ (hdone s j h hKj)
    · rcases hkeep s i h with hP | hQ
      · exact ih hP ⟨j, hj, hKj⟩
      · exact hforever is _ hQ

/-- A property that guarded steps keep and unguarded steps break holds after every prefix of a
run exactly when the whole run is guarded. `I` is what is known of every reachable state. -/
theorem prefixes_iff_allSteps {G : σ → ι → Prop} {I : σ → Prop} {P : List ι → σ → Prop} {s : σ}
    (hinv0 : I s) (hinv : ∀ x i, I x → I (step x i)) (h0 : P [] s)
    (hkeep : ∀ h x i, I x → P h x → G x i → P (h ++ [i]) (step x i))
    (hbreak : ∀ h x i, I x → P h x → ¬ G x i → ¬ P (h ++ [i]) (step x i)) (is : List ι) :
    (∀ pre, pre <+: is → P pre (run step s pre)) ↔ AllSteps step G s is := by
  have hreach : ∀ js, I (run step s js) := fun js =>
    run_invariant step (fun _ x => I x) hinv0 (fun _ x i hx => hinv x i hx) js
  induction is using List.reverseRecOn with
  | nil =>
    constructor
    · intro _; exact allSteps_nil
    · intro _ pre hpre
      rw [List.prefix_nil.mp hpre]; exact h0
  | append_singleton is i ih =>
    rw [allSteps_concat]
    constructor
    · intro hP
      have hpre : AllSteps step G s is :=
        ih.mp fun pre hp => hP pre (hp.trans (List.prefix_append _ _))
      refine ⟨hpre, ?_⟩
      by_contra hG
      refine hbreak is _ i (hreach is) (hP is (List.prefix_append _ _)) hG ?_
      have hlast := hP _ (List.prefix_refl _)
      rwa [run_concat] at hlast
    · rintro ⟨hpre, hi⟩ pre hp
      rcases List.prefix_concat_iff.mp hp with rfl | hp
      · rw [run_concat]
        exact hkeep is _ i (hreach is) (ih.mpr hpre is (List.prefix_refl _)) hi
      · exact ih.mpr hpre pre hp

end LTS
