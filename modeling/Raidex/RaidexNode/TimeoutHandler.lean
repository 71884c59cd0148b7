import Raidex.Lib.ListUpdate
import Raidex.RaidexNode.App
import Raidex.RaidexNode.Effects

/-!
# Raidex.RaidexNode.TimeoutHandler

The timers of offers with the greenlets behind them, and what they dispatch.

A greenlet waits until it fires or is killed, and never runs again after either. The handler keeps
the last one of each offer id, also after it has fired.

* `TimeoutHandler.Accounted`: what holds of the greenlets, the registry and the dispatched state
  changes in every run; `step_accounted` and `run_accounted` prove it.
* `timers_accounted`: at most one timer of an offer is alive, a timer that is cleaned up never
  fires, and every timer fires at most once.
* `Simulates`: the timers of the node are those of the handler; every operation keeps it.
-/

namespace Raidex
namespace RaidexNode

inductive GreenletState where
  | waiting
  | fired
  | killed
  deriving DecidableEq

/-- A greenlet that is to dispatch an `OfferTimeoutStateChange`. -/
structure TimeoutGreenlet where
  offerId : Nat
  timeoutDate : Nat
  lifetime : Int
  state : GreenletState

namespace TimeoutGreenlet

def dead (g : TimeoutGreenlet) : Bool := g.state ≠ .waiting

/-- A greenlet that waits fires or is killed; nothing happens to a dead one. -/
def finish (s : GreenletState) (g : TimeoutGreenlet) : TimeoutGreenlet :=
  if g.state = .waiting then { g with state := s } else g

/-- What a greenlet was created for. -/
def terms (g : TimeoutGreenlet) : Nat × Nat := (g.offerId, g.timeoutDate)

/-- What the node knows of a greenlet. -/
def timer (g : TimeoutGreenlet) : Timer := ⟨g.timeoutDate, g.lifetime, g.dead⟩

end TimeoutGreenlet

/-- The state change that a greenlet has dispatched. -/
structure TimeoutDispatch where
  greenlet : Nat
  offerId : Nat
  timeoutDate : Nat

/-- All greenlets in the order of their creation, those that are registered under an offer id, and
the state changes that they have dispatched. -/
structure TimeoutHandler where
  greenlets : List TimeoutGreenlet
  timeoutGreenlets : Dict Nat Nat
  dispatched : List TimeoutDispatch

abbrev TimeoutM := EStateM PyError TimeoutHandler

namespace TimeoutHandler

def empty : TimeoutHandler where
  greenlets := []
  timeoutGreenlets := ∅
  dispatched := []

/-- The greenlet that is registered under the id. -/
def greenletOf (h : TimeoutHandler) (offerId : Nat) : Option TimeoutGreenlet :=
  (h.timeoutGreenlets.lookup offerId).bind fun r => h.greenlets[r]?

def hasGreenlet (h : TimeoutHandler) (offerId : Nat) : Bool := offerId ∈ h.timeoutGreenlets

def isStillAlive (h : TimeoutHandler) (offerId : Nat) : Bool :=
  (h.greenletOf offerId).any fun g => !g.dead

def killGreenlet (h : TimeoutHandler) (r : Nat) : TimeoutHandler :=
  { h with greenlets := h.greenlets.modify r (.finish .killed) }

def cleanUpTimeout (h : TimeoutHandler) (offerId : Nat) : TimeoutHandler :=
  match h.timeoutGreenlets.lookup offerId with
  | none => h
  | some r =>
    { h.killGreenlet r with timeoutGreenlets := h.timeoutGreenlets.erase offerId }

/-- `spawn_later`, the greenlet kept under the offer id. -/
def spawnLater (h : TimeoutHandler) (offerId timeoutDate : Nat) (lifetime : Int) :
    TimeoutHandler :=
  { h with
    greenlets := h.greenlets ++ [⟨offerId, timeoutDate, lifetime, .waiting⟩]
    timeoutGreenlets := h.timeoutGreenlets.insert offerId h.greenlets.length }

/-- The threshold is in milliseconds. -/
def createNewTimeout (now offerId timeoutDate threshold : Nat) : TimeoutM Bool := do
  let h ← get
  if h.hasGreenlet offerId && !h.isStillAlive offerId then throw .alreadyTimedOut
  modify fun h => h.cleanUpTimeout offerId
  let seconds ← MonadExcept.ofExcept (secondsToTimeout now timeoutDate)
  modify fun h => h.spawnLater offerId timeoutDate (seconds - threshold)
  return true

/-- The greenlet runs, if it waits. -/
def fire (h : TimeoutHandler) (r : Nat) : TimeoutHandler :=
  match h.greenlets[r]? with
  | none => h
  | some g =>
    if g.dead then h
    else { h with
      greenlets := h.greenlets.modify r (.finish .fired)
      dispatched := h.dispatched ++ [⟨r, g.offerId, g.timeoutDate⟩] }

end TimeoutHandler

/-! ## Runs -/

inductive TimeoutOp where
  | createNewTimeout (now offerId timeoutDate threshold : Nat)
  | cleanUpTimeout (offerId : Nat)
  | fire (greenlet : Nat)

/-- The offer whose timer a call cleans up or replaces. -/
def TimeoutOp.offerId? : TimeoutOp → Option Nat
  | .createNewTimeout _ offerId _ _ => some offerId
  | .cleanUpTimeout offerId => some offerId
  | .fire _ => none

namespace TimeoutHandler

/-- A call that raises leaves behind what it has done. -/
def step (h : TimeoutHandler) : TimeoutOp → TimeoutHandler
  | .createNewTimeout now offerId timeoutDate threshold =>
    ((createNewTimeout now offerId timeoutDate threshold).run h).state
  | .cleanUpTimeout offerId => h.cleanUpTimeout offerId
  | .fire r => h.fire r

def run (ops : List TimeoutOp) : TimeoutHandler := LTS.run step .empty ops

/-- The offer id and the date of a call that creates a timer. -/
def creation (h : TimeoutHandler) : TimeoutOp → Option (Nat × Nat)
  | .createNewTimeout now offerId timeoutDate threshold =>
    if ((createNewTimeout now offerId timeoutDate threshold).run h).returned then
      some (offerId, timeoutDate)
    else none
  | _ => none

/-- The successful `create_new_timeout` calls of a run. -/
def creations (ops : List TimeoutOp) : List (Nat × Nat) :=
  (LTS.trace step .empty ops).filterMap fun x => x.1.creation x.2

/-- The registered greenlets are those of their ids and have not been killed, those that wait are
registered, and each has dispatched at most once, when it fired. -/
structure Accounted (h : TimeoutHandler) : Prop where
  registered : ∀ id r, h.timeoutGreenlets.lookup id = some r →
    ∃ g, h.greenlets[r]? = some g ∧ g.offerId = id ∧ g.state ≠ .killed
  alive : ∀ r g, h.greenlets[r]? = some g → g.state = .waiting →
    h.timeoutGreenlets.lookup g.offerId = some r
  dispatched : ∀ d ∈ h.dispatched, ∃ g, h.greenlets[d.greenlet]? = some g ∧ g.state = .fired ∧
    g.offerId = d.offerId ∧ g.timeoutDate = d.timeoutDate
  fired : ∀ r g, h.greenlets[r]? = some g → g.state = .fired →
    r ∈ h.dispatched.map TimeoutDispatch.greenlet
  once : (h.dispatched.map TimeoutDispatch.greenlet).Nodup

section

variable {h : TimeoutHandler} {g : TimeoutGreenlet} {s : GreenletState} {id r r' : Nat}

theorem dead_eq_false : g.dead = false ↔ g.state = .waiting := by
  rw [TimeoutGreenlet.dead, decide_eq_false_iff_not, not_not]

/-- Nothing but the state of the greenlet changes, and only if it waits. -/
theorem finish_cases (s : GreenletState) (g : TimeoutGreenlet) :
    (g.finish s).offerId = g.offerId ∧ (g.finish s).timeoutDate = g.timeoutDate ∧
      (g.state = .waiting ∧ (g.finish s).state = s ∨ g.state ≠ .waiting ∧ g.finish s = g) := by
  unfold TimeoutGreenlet.finish
  split
  next hwaiting => exact ⟨rfl, rfl, .inl ⟨hwaiting, rfl⟩⟩
  next hdead => exact ⟨rfl, rfl, .inr ⟨hdead, rfl⟩⟩

theorem getElem?_finish (l : List TimeoutGreenlet) (s : GreenletState) (r r' : Nat) :
    (l.modify r (.finish s))[r']? = l[r']?.map fun g => if r = r' then g.finish s else g :=
  List.getElem?_modify ..

/-- A greenlet after another one, or itself, has ended. -/
theorem finished_cases {l : List TimeoutGreenlet} (h : (l.modify r (.finish s))[r']? = some g) :
    ∃ g', l[r']? = some g' ∧ g.offerId = g'.offerId ∧ g.timeoutDate = g'.timeoutDate ∧
      (r' = r ∧ g'.state = .waiting ∧ g.state = s ∨ (r' = r → g'.state ≠ .waiting) ∧ g = g') := by
  rw [getElem?_finish] at h
  obtain ⟨g', hg', rfl⟩ := Option.map_eq_some_iff.mp h
  refine ⟨g', hg', ?_⟩
  by_cases hr : r = r'
  · rw [if_pos hr]
    obtain ⟨hid, hdate, ⟨hwaiting, hstate⟩ | ⟨hdead, heq⟩⟩ := finish_cases s g'
    · exact ⟨hid, hdate, .inl ⟨hr.symm, hwaiting, hstate⟩⟩
    · exact ⟨hid, hdate, .inr ⟨fun _ => hdead, heq⟩⟩
  · rw [if_neg hr]
    exact ⟨rfl, rfl, .inr ⟨fun heq => absurd heq.symm hr, rfl⟩⟩

/-- What a greenlet is after another one, or itself, has ended. -/
theorem finished_of {l : List TimeoutGreenlet} (h : l[r']? = some g) :
    ∃ g', (l.modify r (.finish s))[r']? = some g' ∧ g'.offerId = g.offerId ∧
      g'.timeoutDate = g.timeoutDate ∧ (r' = r → g.state = .waiting → g'.state = s) ∧
      ((r' = r → g.state ≠ .waiting) → g' = g) := by
  rw [getElem?_finish, h, Option.map_some]
  refine ⟨_, rfl, ?_⟩
  by_cases hr : r = r'
  · rw [if_pos hr]
    obtain ⟨hid, hdate, ⟨hwaiting, hstate⟩ | ⟨hdead, heq⟩⟩ := finish_cases s g
    · exact ⟨hid, hdate, fun _ _ => hstate, fun hd => absurd hwaiting (hd hr.symm)⟩
    · exact ⟨hid, hdate, fun _ hwaiting => absurd hwaiting hdead, fun _ => heq⟩
  · rw [if_neg hr]
    exact ⟨rfl, rfl, fun heq => absurd heq.symm hr, fun _ => rfl⟩

/-! ## Calls -/

theorem createNewTimeout_run (h : TimeoutHandler) (now id date threshold : Nat) :
    (createNewTimeout now id date threshold).run h =
      if h.hasGreenlet id && !h.isStillAlive id then .error .alreadyTimedOut h
      else if maxTimestamp < date then .error .overflowError (h.cleanUpTimeout id)
      else .ok true
        ((h.cleanUpTimeout id).spawnLater id date ((date - now : Int) - threshold)) := by
  unfold createNewTimeout
  rw [EStateM.run_bind, EStateM.run_get]
  cases hcond : (h.hasGreenlet id && !h.isStillAlive id) with
  | true => simp only [hcond, if_true]; rfl
  | false =>
    simp only [hcond, Bool.false_eq_true, if_false]
    by_cases hdate : maxTimestamp < date
    · rw [if_pos hdate, secondsToTimeout, if_pos hdate]
      rfl
    · rw [if_neg hdate, secondsToTimeout, if_neg hdate]
      rfl

theorem lookup_cleanUpTimeout (h : TimeoutHandler) (id id' : Nat) :
    (h.cleanUpTimeout id).timeoutGreenlets.lookup id' =
      if id' = id then none else h.timeoutGreenlets.lookup id' := by
  unfold cleanUpTimeout
  cases hid : h.timeoutGreenlets.lookup id with
  | none =>
    by_cases heq : id' = id
    · rw [if_pos heq, heq]
      exact hid
    · rw [if_neg heq]
  | some r =>
    by_cases heq : id' = id
    · rw [if_pos heq, heq]
      exact AList.lookup_erase _ _
    · rw [if_neg heq]
      exact AList.lookup_erase_ne heq

theorem Accounted.cleanUpTimeout (hacc : Accounted h) (id : Nat) :
    Accounted (h.cleanUpTimeout id) := by
  have hlookup := lookup_cleanUpTimeout h id
  unfold TimeoutHandler.cleanUpTimeout at hlookup ⊢
  cases hid : h.timeoutGreenlets.lookup id with
  | none => exact hacc
  | some r =>
    simp only [hid] at hlookup
    simp only [killGreenlet]
    constructor
    · intro id' r' hr'
      rw [hlookup] at hr'
      split at hr'
      · cases hr'
      next hne =>
        obtain ⟨g, hg, hid', hstate⟩ := hacc.registered id' r' hr'
        obtain ⟨g', hg', -, -, -, hsame⟩ := finished_of (r := r) (s := .killed) hg
        -- Another id has another greenlet.
        have hother : r' ≠ r := by
          rintro rfl
          obtain ⟨g₀, hg₀, hid₀, -⟩ := hacc.registered id r' hid
          rw [hg] at hg₀
          obtain rfl := Option.some.inj hg₀
          exact hne (hid'.symm.trans hid₀)
        obtain rfl := hsame fun heq => absurd heq hother
        exact ⟨g', hg', hid', hstate⟩
    · intro r' g hg hwaiting
      obtain ⟨g', hg', hgid, -, ⟨-, -, hkilled⟩ | ⟨hdead, rfl⟩⟩ := finished_cases hg
      · rw [hkilled] at hwaiting
        cases hwaiting
      · have hreg := hacc.alive r' g hg' hwaiting
        rw [hlookup, if_neg]
        · exact hreg
        · intro heq
          rw [heq, hid] at hreg
          exact hdead (Option.some.inj hreg).symm hwaiting
    · intro d hd
      obtain ⟨g, hg, hfired, hgid, hdate⟩ := hacc.dispatched d hd
      obtain ⟨g', hg', -, -, -, hsame⟩ := finished_of (r := r) (s := .killed) hg
      obtain rfl := hsame fun _ => by rw [hfired]; decide
      exact ⟨g', hg', hfired, hgid, hdate⟩
    · intro r' g hg hfired
      obtain ⟨g', hg', -, -, ⟨-, -, hkilled⟩ | ⟨-, rfl⟩⟩ := finished_cases hg
      · rw [hkilled] at hfired
        cases hfired
      · exact hacc.fired r' g hg' hfired
    · exact hacc.once

theorem Accounted.spawnLater (hacc : Accounted h) (hid : h.timeoutGreenlets.lookup id = none)
    (date : Nat) (lifetime : Int) : Accounted (h.spawnLater id date lifetime) := by
  have hold {r' : Nat} {g : TimeoutGreenlet} (hg : h.greenlets[r']? = some g) :
      (h.spawnLater id date lifetime).greenlets[r']? = some g := by
    show (h.greenlets ++ _)[r']? = some g
    rw [List.getElem?_append_left (List.getElem?_eq_some_iff.mp hg).1]
    exact hg
  constructor
  · intro id' r' hr'
    by_cases heq : id' = id
    · subst heq
      have hlookup : (h.spawnLater id' date lifetime).timeoutGreenlets.lookup id' =
          some h.greenlets.length := AList.lookup_insert _
      rw [hlookup] at hr'
      obtain rfl := Option.some.inj hr'
      exact ⟨⟨id', date, lifetime, .waiting⟩, List.getElem?_concat_length, rfl, nofun⟩
    · have hlookup : (h.spawnLater id date lifetime).timeoutGreenlets.lookup id' =
          h.timeoutGreenlets.lookup id' := AList.lookup_insert_ne heq
      rw [hlookup] at hr'
      obtain ⟨g, hg, hsame⟩ := hacc.registered id' r' hr'
      exact ⟨g, hold hg, hsame⟩
  · intro r' g hg hwaiting
    rcases List.getElem?_concat_cases hg with ⟨-, hg⟩ | ⟨rfl, rfl⟩
    · have hreg := hacc.alive r' g hg hwaiting
      have hne : g.offerId ≠ id := by
        intro heq
        rw [heq, hid] at hreg
        cases hreg
      exact (AList.lookup_insert_ne hne).trans hreg
    · exact AList.lookup_insert _
  · intro d hd
    obtain ⟨g, hg, hsame⟩ := hacc.dispatched d hd
    exact ⟨g, hold hg, hsame⟩
  · intro r' g hg hfired
    rcases List.getElem?_concat_cases hg with ⟨-, hg⟩ | ⟨rfl, rfl⟩
    · exact hacc.fired r' g hg hfired
    · cases hfired
  · exact hacc.once

theorem Accounted.fire (hacc : Accounted h) (r : Nat) : Accounted (h.fire r) := by
  unfold TimeoutHandler.fire
  cases hr : h.greenlets[r]? with
  | none => exact hacc
  | some g₀ =>
    by_cases hdead : g₀.dead = true
    · simp only [hdead, if_true]
      exact hacc
    · have hwaiting : g₀.state = .waiting := dead_eq_false.mp (eq_false_of_ne_true hdead)
      simp only [hdead, Bool.false_eq_true, if_false]
      constructor
      · intro id' r' hr'
        obtain ⟨g, hg, hid', hstate⟩ := hacc.registered id' r' hr'
        obtain ⟨g', hg', hgid, -, hnew, hsame⟩ := finished_of (r := r) (s := .fired) hg
        refine ⟨g', hg', hgid.trans hid', ?_⟩
        by_cases hthis : r' = r ∧ g.state = .waiting
        · rw [hnew hthis.1 hthis.2]
          decide
        · rw [hsame fun heq hwait => hthis ⟨heq, hwait⟩]
          exact hstate
      · intro r' g hg hwait
        obtain ⟨g', hg', hgid, -, ⟨-, -, hfired⟩ | ⟨-, rfl⟩⟩ := finished_cases hg
        · rw [hfired] at hwait
          cases hwait
        · exact hacc.alive r' g hg' hwait
      · rw [List.forall_mem_append, List.forall_mem_singleton]
        refine ⟨?_, ?_⟩
        · intro d hd
          obtain ⟨g, hg, hfired, hgid, hdate⟩ := hacc.dispatched d hd
          obtain ⟨g', hg', -, -, -, hsame⟩ := finished_of (r := r) (s := .fired) hg
          obtain rfl := hsame fun _ => by rw [hfired]; decide
          exact ⟨g', hg', hfired, hgid, hdate⟩
        · obtain ⟨g', hg', hgid, hdate, hnew, -⟩ := finished_of (r := r) (s := .fired) hr
          exact ⟨g', hg', hnew rfl hwaiting, hgid, hdate⟩
      · intro r' g hg hfired
        rw [List.map_append, List.mem_append]
        obtain ⟨g', hg', -, -, ⟨heq, -, -⟩ | ⟨-, rfl⟩⟩ := finished_cases hg
        · exact .inr (List.mem_singleton.mpr heq)
        · exact .inl (hacc.fired r' g hg' hfired)
      · rw [List.map_append, List.map_cons, List.map_nil, ← List.concat_eq_append,
          List.nodup_concat]
        refine ⟨fun hmem => ?_, hacc.once⟩
        obtain ⟨d, hd, rfl⟩ := List.mem_map.mp hmem
        obtain ⟨g, hg, hfired, -⟩ := hacc.dispatched d hd
        rw [hr] at hg
        obtain rfl := Option.some.inj hg
        rw [hwaiting] at hfired
        cases hfired

theorem step_accounted (hacc : Accounted h) (op : TimeoutOp) : Accounted (h.step op) := by
  cases op with
  | createNewTimeout now id date threshold =>
    have hclean := hacc.cleanUpTimeout id
    have hnone : (h.cleanUpTimeout id).timeoutGreenlets.lookup id = none := by
      rw [lookup_cleanUpTimeout, if_pos rfl]
    rw [step, createNewTimeout_run]
    split
    · exact hacc
    · split
      · exact hclean
      · exact hclean.spawnLater hnone _ _
  | cleanUpTimeout id => exact hacc.cleanUpTimeout id
  | fire r => exact hacc.fire r

end

theorem accounted_empty : Accounted empty where
  registered _ _ h := by cases h
  alive _ _ h := by cases h
  dispatched _ h := absurd h List.not_mem_nil
  fired _ _ h := by cases h
  once := List.nodup_nil

theorem run_accounted (ops : List TimeoutOp) : Accounted (run ops) :=
  LTS.run_invariant step (fun _ h => Accounted h) accounted_empty
    (fun _ _ op hacc => step_accounted hacc op) ops

/-! ## Timers that have ended -/

section

variable {h : TimeoutHandler} {g : TimeoutGreenlet} {id r : Nat}

/-- A killed greenlet stays killed. -/
theorem step_killed (hg : h.greenlets[r]? = some g) (hkilled : g.state = .killed)
    (op : TimeoutOp) : (h.step op).greenlets[r]? = some g := by
  have hdead : g.state ≠ .waiting := by rw [hkilled]; decide
  have hfinish (s : GreenletState) (r' : Nat) :
      (h.greenlets.modify r' (.finish s))[r]? = some g := by
    obtain ⟨g', hg', -, -, -, hsame⟩ := finished_of (r := r') (s := s) hg
    obtain rfl := hsame fun _ => hdead
    exact hg'
  have hclean (id : Nat) : (h.cleanUpTimeout id).greenlets[r]? = some g := by
    unfold cleanUpTimeout
    cases h.timeoutGreenlets.lookup id with
    | none => exact hg
    | some r' => exact hfinish .killed r'
  cases op with
  | createNewTimeout now id date threshold =>
    rw [step, createNewTimeout_run]
    split
    · exact hg
    · split
      · exact hclean id
      · show ((h.cleanUpTimeout id).greenlets ++ _)[r]? = some g
        rw [List.getElem?_append_left (List.getElem?_eq_some_iff.mp (hclean id)).1]
        exact hclean id
  | cleanUpTimeout id => exact hclean id
  | fire r' =>
    show (h.fire r').greenlets[r]? = some g
    unfold fire
    cases h.greenlets[r']? with
    | none => exact hg
    | some g' =>
      simp only
      split
      · exact hg
      · exact hfinish .fired r'

theorem run_killed (hg : h.greenlets[r]? = some g) (hkilled : g.state = .killed)
    (ops : List TimeoutOp) : (LTS.run step h ops).greenlets[r]? = some g := by
  induction ops generalizing h with
  | nil => exact hg
  | cons op ops ih => exact ih (step_killed hg hkilled op)

/-- A call for the offer of a timer that waits kills the timer. -/
theorem step_kills (hacc : Accounted h) (hg : h.greenlets[r]? = some g)
    (hwaiting : g.state = .waiting) {op : TimeoutOp} (hop : op.offerId? = some g.offerId) :
    ∃ g', (h.step op).greenlets[r]? = some g' ∧ g'.state = .killed := by
  have hreg := hacc.alive r g hg hwaiting
  have hclean : ∃ g', (h.cleanUpTimeout g.offerId).greenlets[r]? = some g' ∧
      g'.state = .killed := by
    obtain ⟨g', hg', -, -, hnew, -⟩ := finished_of (r := r) (s := .killed) hg
    refine ⟨g', ?_, hnew rfl hwaiting⟩
    unfold cleanUpTimeout
    rw [hreg]
    exact hg'
  cases op with
  | createNewTimeout now id date threshold =>
    obtain rfl := Option.some.inj hop
    have halive : h.isStillAlive g.offerId = true := by
      rw [isStillAlive, greenletOf, hreg, Option.bind_some, hg, Option.any_some,
        dead_eq_false.mpr hwaiting]
      rfl
    obtain ⟨g', hg', hkilled⟩ := hclean
    refine ⟨g', ?_, hkilled⟩
    rw [step, createNewTimeout_run, halive, Bool.not_true, Bool.and_false]
    simp only [Bool.false_eq_true, if_false]
    split
    · exact hg'
    · show ((h.cleanUpTimeout g.offerId).greenlets ++ _)[r]? = some g'
      rw [List.getElem?_append_left (List.getElem?_eq_some_iff.mp hg').1]
      exact hg'
  | cleanUpTimeout id =>
    obtain rfl := Option.some.inj hop
    exact hclean
  | fire r' => cases hop

/-- The guard of `create_new_timeout`: the timer of the offer has fired. -/
theorem guard_iff (hacc : Accounted h) : (h.hasGreenlet id && !h.isStillAlive id) = true ↔
    ∃ r, h.timeoutGreenlets.lookup id = some r ∧
      r ∈ h.dispatched.map TimeoutDispatch.greenlet := by
  rw [hasGreenlet, isStillAlive, greenletOf, Bool.and_eq_true, decide_eq_true_eq,
    ← AList.lookup_isSome]
  cases hid : h.timeoutGreenlets.lookup id with
  | none => exact ⟨fun hguard => absurd hguard.1 Bool.false_ne_true, by rintro ⟨r, ⟨⟩, -⟩⟩
  | some r =>
    obtain ⟨g, hg, -, hstate⟩ := hacc.registered id r hid
    rw [Option.bind_some, hg, Option.any_some, Bool.not_not]
    constructor
    · rintro ⟨-, hdead⟩
      refine ⟨r, rfl, hacc.fired r g hg ?_⟩
      cases hgstate : g.state with
      | waiting => rw [dead_eq_false.mpr hgstate] at hdead; cases hdead
      | fired => rfl
      | killed => exact absurd hgstate hstate
    · rintro ⟨_, ⟨⟩, hmem⟩
      obtain ⟨d, hd, rfl⟩ := List.mem_map.mp hmem
      obtain ⟨g', hg', hfired, -⟩ := hacc.dispatched d hd
      rw [hg] at hg'
      obtain rfl := Option.some.inj hg'
      exact ⟨rfl, decide_eq_true (by rw [hfired]; decide)⟩

/-! ## Dispatches and creations -/

theorem terms_finish (l : List TimeoutGreenlet) (r : Nat) (s : GreenletState) :
    (l.modify r (.finish s)).map TimeoutGreenlet.terms = l.map TimeoutGreenlet.terms := by
  refine List.ext_getElem? ?_
  intro r'
  rw [List.getElem?_map, List.getElem?_map, getElem?_finish, Option.map_map]
  refine congrArg (fun f => Option.map f l[r']?) (funext fun g => ?_)
  show TimeoutGreenlet.terms (if r = r' then g.finish s else g) = _
  obtain ⟨hid, hdate, -⟩ := finish_cases s g
  split
  · exact Prod.ext hid hdate
  · rfl

theorem terms_cleanUpTimeout (h : TimeoutHandler) (id : Nat) :
    (h.cleanUpTimeout id).greenlets.map TimeoutGreenlet.terms =
      h.greenlets.map TimeoutGreenlet.terms := by
  unfold cleanUpTimeout
  cases h.timeoutGreenlets.lookup id with
  | none => rfl
  | some r => exact terms_finish h.greenlets r .killed

theorem terms_step (h : TimeoutHandler) (op : TimeoutOp) :
    (h.step op).greenlets.map TimeoutGreenlet.terms =
      h.greenlets.map TimeoutGreenlet.terms ++ (h.creation op).toList := by
  cases op with
  | createNewTimeout now id date threshold =>
    rw [step, creation, createNewTimeout_run]
    split
    · exact (List.append_nil _).symm
    · split
      · rw [EStateM.Result.returned_error, if_neg Bool.false_ne_true, Option.toList_none,
          List.append_nil]
        exact terms_cleanUpTimeout h id
      · rw [EStateM.Result.returned_ok, if_pos rfl, ← terms_cleanUpTimeout h id]
        exact List.map_append
  | cleanUpTimeout id =>
    exact (terms_cleanUpTimeout h id).trans (List.append_nil _).symm
  | fire r =>
    refine Eq.trans ?_ (List.append_nil _).symm
    show (h.fire r).greenlets.map TimeoutGreenlet.terms = _
    unfold fire
    cases h.greenlets[r]? with
    | none => rfl
    | some g =>
      simp only
      split
      · rfl
      · exact terms_finish h.greenlets r .fired

end

/-- There is a greenlet for each successful call. -/
theorem terms_run (ops : List TimeoutOp) :
    (run ops).greenlets.map TimeoutGreenlet.terms = creations ops := by
  induction ops using List.reverseRecOn with
  | nil => rfl
  | append_singleton ops op ih =>
    rw [run, LTS.run_concat, terms_step, ← run, ih, creations, creations, LTS.trace_concat,
      List.filterMap_append]
    refine congrArg _ ?_
    show _ = ([(run ops, op)].filterMap fun x => x.1.creation x.2)
    cases hc : (run ops).creation op <;> simp [hc]

/-- A timer that is not dead is the one registered under its offer, so there is at most one. A
timer that waits when its offer is cleaned up or gets a new timer dispatches nothing. A new timer
is refused exactly when the registered one has fired, and this changes nothing. Every dispatch
belongs to a successful call, and no call has two. -/
theorem timers_accounted (ops : List TimeoutOp) :
    (∀ (r : Nat) (g : TimeoutGreenlet), (run ops).greenlets[r]? = some g → g.dead = false →
      (run ops).timeoutGreenlets.lookup g.offerId = some r) ∧
    (∀ (pre post : List TimeoutOp) (op : TimeoutOp) (r : Nat) (g : TimeoutGreenlet),
      ops = pre ++ op :: post → (run pre).greenlets[r]? = some g → g.dead = false →
      op.offerId? = some g.offerId →
      r ∉ (run ops).dispatched.map TimeoutDispatch.greenlet) ∧
    (∀ now id date threshold,
      ((∃ h, (createNewTimeout now id date threshold).run (run ops) = .error .alreadyTimedOut h) ↔
        ∃ r, (run ops).timeoutGreenlets.lookup id = some r ∧
          r ∈ (run ops).dispatched.map TimeoutDispatch.greenlet) ∧
      ∀ h, (createNewTimeout now id date threshold).run (run ops) = .error .alreadyTimedOut h →
        h = run ops) ∧
    ((run ops).dispatched.map TimeoutDispatch.greenlet).Nodup ∧
    ∀ d ∈ (run ops).dispatched, (creations ops)[d.greenlet]? = some (d.offerId, d.timeoutDate) := by
  have hacc := run_accounted ops
  refine ⟨fun r g hg hdead => hacc.alive r g hg (dead_eq_false.mp hdead), ?_, ?_, hacc.once, ?_⟩
  · rintro pre post op r g rfl hg hdead hop hmem
    obtain ⟨g', hg', hkilled⟩ := step_kills (run_accounted pre) hg (dead_eq_false.mp hdead) hop
    have hlast := run_killed hg' hkilled post
    obtain ⟨d, hd, rfl⟩ := List.mem_map.mp hmem
    obtain ⟨g'', hg'', hfired, -⟩ := hacc.dispatched d hd
    rw [run, LTS.run_append, LTS.run_cons] at hg''
    obtain rfl := Option.some.inj (hlast.symm.trans hg'')
    rw [hkilled] at hfired
    cases hfired
  · intro now id date threshold
    rw [← guard_iff hacc, createNewTimeout_run]
    split
    next hguard =>
      refine ⟨iff_of_true ⟨_, rfl⟩ hguard, ?_⟩
      intro h hh
      cases hh
      rfl
    next hguard =>
      split
      · exact ⟨iff_of_false (by rintro ⟨h, ⟨⟩⟩) hguard, fun h hh => by cases hh⟩
      · exact ⟨iff_of_false (by rintro ⟨h, ⟨⟩⟩) hguard, fun h hh => by cases hh⟩
  · intro d hd
    obtain ⟨g, hg, -, hid, hdate⟩ := hacc.dispatched d hd
    rw [← terms_run, List.getElem?_map, hg, ← hid, ← hdate]
    rfl

/-! ## The timers of the node -/

/-- The registered greenlets are the timers of the node. -/
def Simulates (h : TimeoutHandler) (s : Node) : Prop :=
  ∀ id, (h.greenletOf id).map TimeoutGreenlet.timer = s.timeoutGreenlets.lookup id

section

variable {h : TimeoutHandler} {s : Node} {id r : Nat}

theorem greenletOf_of_lookup (hacc : Accounted h) (hr : h.timeoutGreenlets.lookup id = some r) :
    ∃ g, h.greenletOf id = some g ∧ h.greenlets[r]? = some g ∧ g.offerId = id := by
  obtain ⟨g, hg, hid, -⟩ := hacc.registered id r hr
  refine ⟨g, ?_, hg, hid⟩
  rw [greenletOf, hr, Option.bind_some, hg]

/-- Two offers have different greenlets. -/
theorem lookup_inj (hacc : Accounted h) {id' : Nat} (hr : h.timeoutGreenlets.lookup id = some r)
    (hr' : h.timeoutGreenlets.lookup id' = some r) : id = id' := by
  obtain ⟨g, -, hg, rfl⟩ := greenletOf_of_lookup hacc hr
  obtain ⟨g', -, hg', rfl⟩ := greenletOf_of_lookup hacc hr'
  rw [hg] at hg'
  rw [Option.some.inj hg']

/-- The greenlet of an offer after the one of another has ended. -/
theorem bind_finish (hacc : Accounted h) (hr : h.timeoutGreenlets.lookup id = some r) {id' : Nat}
    (hne : id' ≠ id) (st : GreenletState) :
    ((h.timeoutGreenlets.lookup id').bind fun r' => (h.greenlets.modify r (.finish st))[r']?) =
      h.greenletOf id' := by
  unfold greenletOf
  cases hr' : h.timeoutGreenlets.lookup id' with
  | none => rfl
  | some r' =>
    obtain ⟨g, -, hg, -⟩ := greenletOf_of_lookup hacc hr'
    obtain ⟨g', hg', -, -, -, hsame⟩ := finished_of (r := r) (s := st) hg
    have hother : r' ≠ r := by
      rintro rfl
      exact hne (lookup_inj hacc hr' hr)
    rw [Option.bind_some, Option.bind_some, hg', hg, hsame fun heq => absurd heq hother]

theorem greenletOf_cleanUpTimeout (hacc : Accounted h) (id id' : Nat) :
    (h.cleanUpTimeout id).greenletOf id' = if id' = id then none else h.greenletOf id' := by
  rw [greenletOf, lookup_cleanUpTimeout]
  split
  · rfl
  next hne =>
    unfold cleanUpTimeout
    cases hr : h.timeoutGreenlets.lookup id with
    | none => rfl
    | some r => exact bind_finish hacc hr hne .killed

theorem greenletOf_spawnLater (hacc : Accounted h) (id id' date : Nat) (lifetime : Int) :
    (h.spawnLater id date lifetime).greenletOf id' =
      if id' = id then some ⟨id, date, lifetime, .waiting⟩ else h.greenletOf id' := by
  unfold greenletOf
  split
  next heq =>
    have hlookup : (h.spawnLater id date lifetime).timeoutGreenlets.lookup id' =
        some h.greenlets.length := heq ▸ AList.lookup_insert _
    rw [hlookup, Option.bind_some]
    exact List.getElem?_concat_length
  next hne =>
    have hlookup : (h.spawnLater id date lifetime).timeoutGreenlets.lookup id' =
        h.timeoutGreenlets.lookup id' := AList.lookup_insert_ne hne
    rw [hlookup]
    cases hr : h.timeoutGreenlets.lookup id' with
    | none => rfl
    | some r =>
      obtain ⟨g, -, hg, -⟩ := greenletOf_of_lookup hacc hr
      exact List.getElem?_append_left (List.getElem?_eq_some_iff.mp hg).1

theorem Simulates.hasGreenlet (hsim : Simulates h s) (hacc : Accounted h) (id : Nat) :
    h.hasGreenlet id = s.hasGreenlet id := by
  have hid := hsim id
  rw [Bool.eq_iff_iff, TimeoutHandler.hasGreenlet, Node.hasGreenlet, decide_eq_true_eq,
    decide_eq_true_eq, ← AList.lookup_isSome, ← AList.lookup_isSome, ← hid]
  cases hr : h.timeoutGreenlets.lookup id with
  | none => rw [greenletOf, hr]; rfl
  | some r =>
    obtain ⟨g, hg, -⟩ := greenletOf_of_lookup hacc hr
    rw [hg]
    rfl

theorem Simulates.isStillAlive (hsim : Simulates h s) (id : Nat) :
    h.isStillAlive id = s.isStillAlive id := by
  rw [TimeoutHandler.isStillAlive, Node.isStillAlive, ← hsim id]
  cases h.greenletOf id <;> rfl

theorem Simulates.cleanUpTimeout (hsim : Simulates h s) (hacc : Accounted h) (id : Nat) :
    Simulates (h.cleanUpTimeout id) (s.cleanUpTimeout id) := by
  intro id'
  show _ = (s.timeoutGreenlets.erase id).lookup id'
  rw [greenletOf_cleanUpTimeout hacc]
  split
  next heq => rw [heq, AList.lookup_erase]; rfl
  next hne => rw [AList.lookup_erase_ne hne]; exact hsim id'

/-- A new timer is created, or refused, alike. -/
theorem Simulates.createNewTimeout (hsim : Simulates h s) (hacc : Accounted h) (env : Env)
    (id date threshold : Nat) :
    match (createNewTimeout env.now id date threshold).run h,
      (RaidexNode.createNewTimeout env id date threshold).run s with
    | .ok b h', .ok b' s' => b = b' ∧ Simulates h' s'
    | .error e h', .error e' s' => e = e' ∧ Simulates h' s'
    | _, _ => False := by
  have hclean := hsim.cleanUpTimeout hacc id
  have hacc' := hacc.cleanUpTimeout id
  rw [createNewTimeout_run, RaidexNode.createNewTimeout, EStateM.run_bind, EStateM.run_get]
  simp only [hsim.hasGreenlet hacc, hsim.isStillAlive]
  cases hcond : (s.hasGreenlet id && !s.isStillAlive id) with
  | true =>
    simp only [if_true]
    exact ⟨rfl, hsim⟩
  | false =>
    simp only [Bool.false_eq_true, if_false]
    by_cases hdate : maxTimestamp < date
    · rw [if_pos hdate, secondsToTimeout, if_pos hdate]
      exact ⟨rfl, hclean⟩
    · rw [if_neg hdate, secondsToTimeout, if_neg hdate]
      refine ⟨rfl, ?_⟩
      intro id'
      rw [greenletOf_spawnLater hacc']
      show _ = ((s.cleanUpTimeout id).timeoutGreenlets.insert id _).lookup id'
      split
      next heq => rw [heq, AList.lookup_insert]; rfl
      next hne => rw [AList.lookup_insert_ne hne]; exact hclean id'

/-- The greenlet that is registered under an id fires as the timer of the node does, and they
dispatch the same. -/
theorem Simulates.fire {a : App} (hsim : Simulates h a.node) (hacc : Accounted h)
    (hr : h.timeoutGreenlets.lookup id = some r) :
    Simulates (h.fire r) (a.fireTimer id).node ∧
      ((h.fire r).dispatched = h.dispatched ∧ a.fireTimer id = a ∨
        ∃ date b, (h.fire r).dispatched = h.dispatched ++ [⟨r, id, date⟩] ∧
          a.fireTimer id = App.enqueue b [.offerTimeout id date]) := by
  obtain ⟨g, hof, hg, rfl⟩ := greenletOf_of_lookup hacc hr
  have htimer := hsim g.offerId
  rw [hof, Option.map_some] at htimer
  unfold TimeoutHandler.fire App.fireTimer
  rw [hg, ← htimer]
  by_cases hdead : g.dead = true
  · have htdead : g.timer.dead = true := hdead
    simp only [hdead, htdead, if_true]
    exact ⟨hsim, .inl ⟨trivial, trivial⟩⟩
  · have htdead : ¬ g.timer.dead = true := hdead
    simp only [if_neg hdead, if_neg htdead]
    refine ⟨fun id' => ?_, .inr ⟨g.timeoutDate, _, rfl, rfl⟩⟩
    show Option.map TimeoutGreenlet.timer ((h.timeoutGreenlets.lookup id').bind
      fun r' => (h.greenlets.modify r (.finish .fired))[r']?) =
        (a.node.timeoutGreenlets.insert g.offerId { g.timer with dead := true }).lookup id'
    by_cases hid : id' = g.offerId
    · have hwaiting : g.state = .waiting := dead_eq_false.mp (eq_false_of_ne_true hdead)
      have hfired : g.finish .fired = { g with state := .fired } := if_pos hwaiting
      rw [hid, hr, Option.bind_some, getElem?_finish, hg, Option.map_some, if_pos rfl, hfired,
        AList.lookup_insert]
      rfl
    · rw [bind_finish hacc hr hid, AList.lookup_insert_ne hid]
      exact hsim id'

/-- A greenlet that is not registered does nothing. -/
theorem fire_unregistered (hacc : Accounted h)
    (hr : ∀ id, h.timeoutGreenlets.lookup id ≠ some r) : h.fire r = h := by
  unfold TimeoutHandler.fire
  cases hg : h.greenlets[r]? with
  | none => rfl
  | some g =>
    refine if_pos ?_
    by_contra hdead
    exact hr g.offerId (hacc.alive r g hg (dead_eq_false.mp (eq_false_of_ne_true hdead)))

end

end TimeoutHandler

end RaidexNode
end Raidex
