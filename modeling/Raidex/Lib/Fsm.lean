import Mathlib.Data.List.Basic

/-!
# Raidex.Lib.Fsm

Finite state machines with guarded transitions and callbacks, over a context `σ` and errors `ε`.

A machine declares an ordered table of transitions. Triggering `t` in state `s` considers the
transitions declared for `t` and `s`, or, when there are none, those declared for the nearest
ancestor of `s` that has some. The first of them whose conditions hold (and none of whose
`unlessConditions` do) is executed: its `before` callbacks run, the state changes, the entry
callbacks of the new state run, then the `after` callbacks. The outcome says whether some
transition was executed. With no candidate at all the trigger raises `machineError`.

Callbacks are `EStateM` actions: an error stops the trigger and keeps what ran before it. They
see the arguments of the trigger, the declared source of their transition, and the result of
the trigger so far, which is `false` until the transition is over.
-/

namespace Fsm

structure EventData (S α : Type) where
  args : α
  source : S
  result : Bool

structure Transition (S T α ε σ : Type) where
  trigger : T
  source : S
  dest : S
  conditions : List (EventData S α → EStateM ε σ Bool) := []
  unlessConditions : List (EventData S α → EStateM ε σ Bool) := []
  before : List (EventData S α → EStateM ε σ Unit) := []
  after : List (EventData S α → EStateM ε σ Unit) := []

structure Machine (S T α ε σ : Type) where
  state : σ → S
  setState : S → σ → σ
  ancestors : S → List S := fun _ => []
  onEnter : S → List (EventData S α → EStateM ε σ Unit) := fun _ => []
  transitions : List (Transition S T α ε σ)
  machineError : ε

section

variable {S T α ε σ : Type}

/-- Run the callbacks in order; the first error stops them. -/
@[simp] def runAll : List (EventData S α → EStateM ε σ Unit) → EventData S α → EStateM ε σ Unit
  | [], _ => pure ()
  | c :: cs, ev => do
    c ev
    runAll cs ev

/-- Evaluate the conditions in order until one differs from `target`. -/
@[simp] def checkAll (target : Bool) :
    List (EventData S α → EStateM ε σ Bool) → EventData S α → EStateM ε σ Bool
  | [], _ => pure true
  | c :: cs, ev => do
    let holds ← c ev
    if holds == target then checkAll target cs ev else pure false

namespace Machine

variable (M : Machine S T α ε σ)

/-- `true` when the conditions hold and the transition was executed. -/
@[simp] def execute (tr : Transition S T α ε σ) (args : α) : EStateM ε σ Bool := do
  let ev : EventData S α := { args := args, source := tr.source, result := false }
  let admitted ← checkAll true tr.conditions ev
  if !admitted then return false
  let excluded ← checkAll false tr.unlessConditions ev
  if !excluded then return false
  runAll tr.before ev
  modify (M.setState tr.dest)
  runAll (M.onEnter tr.dest) ev
  runAll tr.after ev
  return true

/-- The first transition of the list that executes. -/
@[simp] def fire (args : α) : List (Transition S T α ε σ) → EStateM ε σ Bool
  | [] => pure false
  | tr :: trs => do
    let done ← M.execute tr args
    if done then return true else fire args trs

variable [DecidableEq S] [DecidableEq T]

def declared (t : T) (s : S) : List (Transition S T α ε σ) :=
  M.transitions.filter fun tr => tr.trigger = t && tr.source = s

/-- The transitions declared for the first of the states that declares any. -/
def candidates (t : T) : List S → List (Transition S T α ε σ)
  | [] => []
  | s :: ss =>
    match M.declared t s with
    | [] => candidates t ss
    | tr :: trs => tr :: trs

def trigger (t : T) (args : α) : EStateM ε σ Bool := do
  let x ← get
  match M.candidates t (M.state x :: M.ancestors (M.state x)) with
  | [] => throw M.machineError
  | tr :: trs => M.fire args (tr :: trs)

/-- A trigger that no transition of the current state or its ancestors declares raises and
changes nothing. -/
theorem trigger_undeclared {t : T} {args : α} {x : σ}
    (h : M.candidates t (M.state x :: M.ancestors (M.state x)) = []) :
    (M.trigger t args).run x = .error M.machineError x := by
  unfold trigger
  rw [EStateM.run_bind, EStateM.run_get]
  simp only [h]
  rfl

theorem trigger_candidates {t : T} {args : α} {x : σ} {tr : Transition S T α ε σ}
    {trs : List (Transition S T α ε σ)}
    (h : M.candidates t (M.state x :: M.ancestors (M.state x)) = tr :: trs) :
    (M.trigger t args).run x = (M.fire args (tr :: trs)).run x := by
  unfold trigger
  rw [EStateM.run_bind, EStateM.run_get]
  simp only [h]

end Machine

end

end Fsm
