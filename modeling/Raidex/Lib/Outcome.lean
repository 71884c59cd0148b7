import Mathlib.Data.List.AList
import Mathlib.Logic.Relation

/-!
# Raidex.Lib.Outcome

Programs with state and exceptions, where an exception keeps the state changes made before it
(`EStateM`), and finite dictionaries (`AList`).

* `Result.state`: the state a program leaves behind, whether it returned or raised.
* `Returns x s`: `x`, started in `s`, returns without raising.
* `Result.of`: the outcome of a program that returns nothing, by the error it raised, if any.
* `run_seq_*`, `run_bind_eq_ok`, `returns_seq`, `state_bind`: how an exception or a return of the
  first part decides a sequence.
* `returns_iff_of`: when a program returns, from what it does under a condition and without it.
* `Proceeds R B x s`: `x`, started in `s`, changes the state by steps of `R`; one step of `B` may
  follow before it raises. `proceeds_bind` and its variants go through a sequence;
  `Proceeds.invariant` is the induction on the steps.
* `Except.bind_eq_ok`, `Except.bind_eq_error`: how a sequence without a state returns or raises;
  `Except.foldlM_ok`, `Except.step_of_foldlM`: how a loop does.
* `Moves R x`: `x` moves every state along the preorder `R`, whether it returns or raises.
-/

namespace Except

variable {ε α β : Type} {x : Except ε α} {f : α → Except ε β}

theorem bind_eq_ok {b : β} : (x >>= f) = .ok b ↔ ∃ a, x = .ok a ∧ f a = .ok b := by
  cases x with
  | ok a => exact ⟨fun h => ⟨a, rfl, h⟩, by rintro ⟨_, ⟨⟩, h⟩; exact h⟩
  | error e => exact ⟨nofun, by rintro ⟨_, ⟨⟩, -⟩⟩

theorem bind_eq_error {e : ε} :
    (x >>= f) = .error e ↔ x = .error e ∨ ∃ a, x = .ok a ∧ f a = .error e := by
  cases x with
  | ok a => exact ⟨fun h => .inr ⟨a, rfl, h⟩, by rintro (⟨⟨⟩⟩ | ⟨_, ⟨⟩, h⟩); exact h⟩
  | error e' =>
    have herr : (Except.error e' : Except ε α) >>= f = .error e' := rfl
    rw [herr]
    constructor
    · intro h
      cases h
      exact .inl rfl
    · rintro (h | ⟨_, ⟨⟩, -⟩)
      cases h
      rfl

/-- A loop whose steps return is the loop of what they return. -/
theorem foldlM_ok {f : β → α → Except ε β} {g : β → α → β} {l : List α}
    (h : ∀ b, ∀ a ∈ l, f b a = .ok (g b a)) (b : β) : l.foldlM f b = .ok (l.foldl g b) := by
  induction l generalizing b with
  | nil => rfl
  | cons a l ih =>
    have htail := ih fun b a ha => h b a (List.mem_cons_of_mem _ ha)
    rw [List.foldlM_cons, h b a List.mem_cons_self, List.foldl_cons]
    exact htail _

/-- A loop that returns has returned at each step. -/
theorem step_of_foldlM {f : β → α → Except ε β} {l : List α} {b b' : β}
    (h : l.foldlM f b = .ok b') : ∀ a ∈ l, ∃ c c', f c a = .ok c' := by
  induction l generalizing b with
  | nil => exact fun a ha => absurd ha List.not_mem_nil
  | cons a l ih =>
    rw [List.foldlM_cons] at h
    obtain ⟨c, hc, h⟩ := bind_eq_ok.mp h
    intro a' ha'
    rcases List.mem_cons.mp ha' with rfl | ha'
    · exact ⟨b, c, hc⟩
    · exact ih h a' ha'

end Except

namespace EStateM

variable {ε σ α β : Type}

def Result.state : Result ε σ α → σ
  | .ok _ s => s
  | .error _ s => s

@[simp] theorem Result.state_ok (a : α) (s : σ) : (Result.ok a s : Result ε σ α).state = s := rfl

@[simp] theorem Result.state_error (e : ε) (s : σ) :
    (Result.error e s : Result ε σ α).state = s := rfl

def Result.returned : Result ε σ α → Bool
  | .ok _ _ => true
  | .error _ _ => false

@[simp] theorem Result.returned_ok (a : α) (s : σ) :
    (Result.ok a s : Result ε σ α).returned = true := rfl

@[simp] theorem Result.returned_error (e : ε) (s : σ) :
    (Result.error e s : Result ε σ α).returned = false := rfl

def Result.of (err : Option ε) (s : σ) : Result ε σ Unit :=
  match err with
  | none => .ok () s
  | some e => .error e s

@[simp] theorem Result.state_of (err : Option ε) (s : σ) : (Result.of err s).state = s := by
  cases err <;> rfl

@[simp] theorem Result.returned_of (err : Option ε) (s : σ) :
    (Result.of err s).returned = err.isNone := by
  cases err <;> rfl

/-- `x`, started in `s`, does not raise. -/
def Returns (x : EStateM ε σ α) (s : σ) : Prop := (x.run s).returned = true

instance (x : EStateM ε σ α) (s : σ) : Decidable (Returns x s) :=
  inferInstanceAs (Decidable (_ = _))

@[simp] theorem run_raise (e : ε) (s : σ) :
    EStateM.run (throw e : EStateM ε σ α) s = .error e s := rfl

@[simp] theorem run_ofExcept_ok (a : α) (s : σ) :
    EStateM.run (MonadExcept.ofExcept (.ok a : Except ε α) : EStateM ε σ α) s = .ok a s := rfl

@[simp] theorem run_ofExcept_error (e : ε) (s : σ) :
    EStateM.run (MonadExcept.ofExcept (.error e : Except ε α) : EStateM ε σ α) s = .error e s :=
  rfl

@[simp] theorem run_fmap (f : α → β) (x : EStateM ε σ α) (s : σ) :
    EStateM.run (f <$> x) s =
      match x.run s with
      | .ok a s' => .ok (f a) s'
      | .error e s' => .error e s' := rfl

theorem run_seq_ok {x : EStateM ε σ α} {f : α → EStateM ε σ β} {s s' : σ} {a : α}
    (h : x.run s = .ok a s') : EStateM.run (x >>= f) s = (f a).run s' := by
  rw [EStateM.run_bind, h]

theorem run_seq_error {x : EStateM ε σ α} {f : α → EStateM ε σ β} {s s' : σ} {e : ε}
    (h : x.run s = .error e s') : EStateM.run (x >>= f) s = .error e s' := by
  rw [EStateM.run_bind, h]

theorem run_bind_eq_ok {x : EStateM ε σ α} {f : α → EStateM ε σ β} {s s' : σ} {b : β} :
    EStateM.run (x >>= f) s = .ok b s' ↔
      ∃ a s₁, x.run s = .ok a s₁ ∧ (f a).run s₁ = .ok b s' := by
  rw [EStateM.run_bind]
  cases h : x.run s with
  | ok a s₁ => exact ⟨fun hf => ⟨a, s₁, rfl, hf⟩, by rintro ⟨_, _, ⟨⟩, hf⟩; exact hf⟩
  | error e s₁ => exact ⟨nofun, by rintro ⟨_, _, ⟨⟩, -⟩⟩

/-! ## Programs that return -/

section

variable {x : EStateM ε σ α} {f : α → EStateM ε σ β} {s s' : σ} {a : α} {e : ε} {P : Prop}

theorem returns_of_ok (h : x.run s = .ok a s') : Returns x s := by
  rw [Returns, h]
  rfl

theorem not_returns_of_error (h : x.run s = .error e s') : ¬ Returns x s := by
  rw [Returns, h]
  exact nofun

theorem returns_iff : Returns x s ↔ ∃ a s', x.run s = .ok a s' := by
  refine ⟨fun hret => ?_, fun ⟨a, s', h⟩ => returns_of_ok h⟩
  cases h : x.run s with
  | ok a s' => exact ⟨a, s', rfl⟩
  | error e s' => exact absurd hret (not_returns_of_error h)

/-- A program that returns under a condition, and raises without it. -/
theorem returns_iff_of (hok : P → ∃ a s', x.run s = .ok a s')
    (herror : ¬ P → ∃ e s', x.run s = .error e s') : Returns x s ↔ P := by
  constructor
  · intro hret
    by_contra hP
    obtain ⟨e, s', h⟩ := herror hP
    exact not_returns_of_error h hret
  · exact fun hP => returns_iff.mpr (hok hP)

theorem returns_bind : Returns (x >>= f) s ↔ ∃ a s', x.run s = .ok a s' ∧ Returns (f a) s' := by
  simp only [returns_iff, run_bind_eq_ok]
  constructor
  · rintro ⟨b, s', a, s₁, h, hf⟩
    exact ⟨a, s₁, h, b, s', hf⟩
  · rintro ⟨a, s₁, h, b, s', hf⟩
    exact ⟨b, s', a, s₁, h, hf⟩

/-- What comes after a part that returns decides whether a sequence does. -/
theorem returns_seq (h : x.run s = .ok a s') : Returns (x >>= f) s ↔ Returns (f a) s' := by
  rw [Returns, run_seq_ok h, Returns]

/-- A part that always returns does not matter at the end of a sequence. -/
theorem returns_of_returns (h : ∀ a s', Returns (f a) s') : Returns (x >>= f) s ↔ Returns x s := by
  rw [returns_bind, returns_iff]
  exact exists₂_congr fun a s' => and_iff_left (h a s')

/-- What holds of the state that the first part leaves, and is kept by what comes after it. -/
theorem state_bind {P : σ → Prop} (hx : P (x.run s).state)
    (hf : ∀ a s', x.run s = .ok a s' → P s' → P ((f a).run s').state) :
    P (EStateM.run (x >>= f) s).state := by
  cases h : x.run s with
  | ok a s' =>
    rw [h] at hx
    rw [run_seq_ok h]
    exact hf a s' h hx
  | error e s' =>
    rw [h] at hx
    rw [run_seq_error h]
    exact hx

end

/-! ## Programs that change the state step by step -/

open Relation (ReflTransGen)

def Proceeds (R B : σ → σ → Prop) (x : EStateM ε σ α) (s : σ) : Prop :=
  match x.run s with
  | .ok _ s' => ReflTransGen R s s'
  | .error _ s' => ∃ s₁, ReflTransGen R s s₁ ∧ (s' = s₁ ∨ B s₁ s')

section

variable {R B : σ → σ → Prop} {x : EStateM ε σ α} {f : α → EStateM ε σ β} {s t : σ} {a : α} {e : ε}

theorem proceeds_ok (h : x.run s = .ok a t) (hR : ReflTransGen R s t) : Proceeds R B x s := by
  rw [Proceeds, h]; exact hR

theorem proceeds_error (h : x.run s = .error e t) (hR : ReflTransGen R s t) :
    Proceeds R B x s := by
  rw [Proceeds, h]; exact ⟨t, hR, .inl rfl⟩

theorem proceeds_break {u : σ} (h : x.run s = .error e u) (hR : ReflTransGen R s t)
    (hB : B t u) : Proceeds R B x s := by
  rw [Proceeds, h]; exact ⟨t, hR, .inr hB⟩

/-- A program that runs as another one after some steps. -/
theorem proceeds_of_run_eq {y : EStateM ε σ α} (h : x.run s = y.run t) (hR : ReflTransGen R s t)
    (hy : Proceeds R B y t) : Proceeds R B x s := by
  unfold Proceeds at hy ⊢
  rw [h]
  cases hrun : y.run t with
  | ok b s' => rw [hrun] at hy; exact hR.trans hy
  | error e s' =>
    rw [hrun] at hy
    obtain ⟨u, hR', hB⟩ := hy
    exact ⟨u, hR.trans hR', hB⟩

theorem proceeds_seq (h : x.run s = .ok a t) (hR : ReflTransGen R s t)
    (hf : Proceeds R B (f a) t) : Proceeds R B (x >>= f) s :=
  proceeds_of_run_eq (run_seq_ok h) hR hf

theorem proceeds_bind (hx : Proceeds R B x s)
    (hf : ∀ a t, x.run s = .ok a t → Proceeds R B (f a) t) : Proceeds R B (x >>= f) s := by
  cases h : x.run s with
  | ok a t =>
    rw [Proceeds, h] at hx
    exact proceeds_seq h hx (hf a t h)
  | error e t =>
    rw [Proceeds, h] at hx
    rw [Proceeds, run_seq_error h]
    exact hx

/-- A program that returns has changed the state by steps of `R` only. -/
theorem Proceeds.steps (h : Proceeds R B x s) (hret : (x.run s).returned = true) :
    ReflTransGen R s (x.run s).state := by
  unfold Proceeds at h
  cases hrun : x.run s with
  | ok a s' => rw [hrun] at h; exact h
  | error e s' => rw [hrun] at hret; cases hret

/-- What steps keep holds after a program that returns. -/
theorem Proceeds.keeps (h : Proceeds R B x s) {P : σ → Prop} (hs : P s)
    (hR : ∀ s s', R s s' → P s → P s') (hret : (x.run s).returned = true) :
    P (x.run s).state := by
  have hsteps := h.steps hret
  generalize (x.run s).state = s' at hsteps
  induction hsteps with
  | refl => exact hs
  | tail _ hlast ih => exact hR _ _ hlast ih

/-- What steps keep holds after a program, up to what the last step breaks. -/
theorem Proceeds.invariant (h : Proceeds R B x s) {P Q : σ → Prop} (hs : P s)
    (hR : ∀ s s', R s s' → P s → P s') (hB : ∀ s s', B s s' → P s → Q s') (hQ : ∀ s, P s → Q s) :
    Q (x.run s).state := by
  have hsteps {s₁ : σ} (hR' : ReflTransGen R s s₁) : P s₁ := by
    induction hR' with
    | refl => exact hs
    | tail _ hlast ih => exact hR _ _ hlast ih
  unfold Proceeds at h
  cases hrun : x.run s with
  | ok a s' => rw [hrun] at h; exact hQ _ (hsteps h)
  | error e s' =>
    rw [hrun] at h
    obtain ⟨s₁, hR', rfl | hlast⟩ := h
    · exact hQ _ (hsteps hR')
    · exact hB _ _ hlast (hsteps hR')

end

/-! ## Programs that move the state along a preorder -/

def Moves (R : σ → σ → Prop) (x : EStateM ε σ α) : Prop := ∀ s, R s (x.run s).state

section

variable {R : σ → σ → Prop} {x : EStateM ε σ α} {f : α → EStateM ε σ β}

theorem moves_modify {g : σ → σ} (h : ∀ s, R s (g s)) :
    Moves R (modify g : EStateM ε σ Unit) := h

theorem moves_bind (htrans : ∀ a b c, R a b → R b c → R a c) (hx : Moves R x)
    (hf : ∀ a, Moves R (f a)) : Moves R (x >>= f) := by
  intro s
  refine state_bind (hx s) ?_
  intro a t _ ht
  exact htrans _ _ _ ht (hf a t)

end

end EStateM

/-- A dictionary: at most one value for each key. -/
abbrev Dict (K V : Type) := AList fun _ : K => V
